import AsteriusIdp.Entitlements.Store

/-!
# Where a temporary role comes from

Over every history of a tenant's temporary entitlements.

* `Effect`, `effect_of_run` : what a transaction can do to the tables and the history.
* `Sound`, `sound_of_path` : every request and every activation goes back to an entry of the
  history; a row that still has the revision of an entry is the row of the entry.
* `Sound.unique_commit` : a user has at most one live activation for an entitlement.
* `since_of_path` : the rows of a request that are still current never changed since.
* `resolved_role` : what a role that is resolved for a grant stems from.
-/

namespace AsteriusIdp.Entitlements

open Fallible Transition Entries Tables

variable {parseUrl : UrlParser} {ladderRevision : AcrPolicy → String}

/-! ### What a transaction does -/

/-- A request with another decision. -/
def EntitlementRequest.Decided (r r' : EntitlementRequest) : Prop :=
  r' = { r with status := r'.status, decidedAt := r'.decidedAt, decidedBy := r'.decidedBy }

/-- An activation that may have been ended, or recorded as expired, since. -/
structure Activation.Restamped (a a' : Activation) : Prop where
  same : a' = { a with revokedAt := a'.revokedAt, revocationReason := a'.revocationReason,
                       expiryRecordedAt := a'.expiryRecordedAt }
  revoked : a'.revokedAt = none → a.revokedAt = none

theorem Activation.Restamped.refl (a : Activation) : a.Restamped a := ⟨rfl, id⟩

/-- A request was made against these rows. -/
structure EntitlementRequest.Against (r : EntitlementRequest) (e : Entitlement) (el : Eligibility) :
    Prop where
  policyRevision : r.policyRevision = e.revision
  eligibilityRevision : r.eligibilityRevision = el.revision
  entitlement : el.entitlementId = r.entitlementId
  user : el.userId = r.requesterUserId
  permissions : r.permissions = e.configuration.permissions

/-- What an approver has to be. -/
structure Independent (approver : String) (r : EntitlementRequest) (e : Entitlement)
    (el : Eligibility) : Prop where
  configured : approver ∈ e.configuration.approverUserIds
  not_requester : approver ≠ r.requesterUserId
  not_editor : approver ≠ e.editorUserId
  not_eligibility_editor : approver ≠ el.editorUserId

/-- The activation of a request that was approved at an instant. -/
structure Activation.Of (a : Activation) (requestId : String) (r : EntitlementRequest)
    (el : Eligibility) (at_ : ℤ) : Prop where
  request : a.requestId = requestId
  entitlement : a.entitlementId = r.entitlementId
  user : a.userId = r.requesterUserId
  activatedAt : a.activatedAt = at_
  duration : a.expiresAt ≤ at_ + seconds r.durationSeconds
  eligibility : a.expiresAt ≤ el.expiresAt

/-- The check of `activate`: this activation is not live. -/
def Tables.Superseded (tables : Tables) (r : EntitlementRequest) (revision : String) (now : ℤ)
    (a : Activation) : Prop :=
  ¬∃ r' el, tables.requests.lookup a.requestId = some r' ∧
    tables.eligibilities.lookup r'.eligibilityId = some el ∧
    a.entitlementId = r.entitlementId ∧ a.userId = r.requesterUserId ∧ a.revokedAt = none ∧
    now < a.expiresAt ∧ el.revokedAt = none ∧ el.revision = r'.eligibilityRevision ∧
    r'.policyRevision = revision

/-- What a transaction makes of the tables, and what it adds to the history. -/
inductive Effect (tables : Tables) (tx : Tx) : Tables → List Entry → Prop
  | editEntitlement (id : String) (row : Entitlement) : row.revision = tx.revision →
    (id = tx.id ∨ (tables.entitlements.lookup id).isSome) →
    Effect tables tx { tables with entitlements := tables.entitlements.insert id row } []
  | editEligibility (id : String) (row : Eligibility) : row.revision = tx.revision →
    (id = tx.id ∨ (tables.eligibilities.lookup id).isSome) →
    Effect tables tx { tables with eligibilities := tables.eligibilities.insert id row } []
  | submit {r : EntitlementRequest} {e : Entitlement} {el : Eligibility} :
    tables.entitlements.lookup r.entitlementId = some e →
    tables.eligibilities.lookup r.eligibilityId = some el →
    r.Against e el →
    Effect tables tx { tables with requests := tables.requests.insert tx.id r }
      [.submitted tx.id e el]
  | close {id : String} {r r' : EntitlementRequest} :
    tables.requests.lookup id = some r → r.status = .pending → r.Decided r' →
    Effect tables tx { tables with requests := tables.requests.insert id r' } []
  | approve {id approver : String} {r r' : EntitlementRequest} {e : Entitlement}
      {el : Eligibility} {a : Activation} :
    tables.requests.lookup id = some r → r.status = .pending → r.Decided r' →
    r'.status = .approved → r'.decidedBy = some approver →
    tables.entitlements.lookup r.entitlementId = some e →
    tables.eligibilities.lookup r.eligibilityId = some el →
    e.revision = r.policyRevision → el.revision = r.eligibilityRevision →
    Independent approver r e el → a.Of id r el tx.now →
    (∀ entry ∈ tables.activations, tables.Superseded r e.revision tx.now entry.2) →
    Effect tables tx
      { tables with activations := tables.activations.insert tx.id a
                    requests := tables.requests.insert id r' }
      [.approved id tx.id approver tx.now e el]
  | restamp {activations : Entries String Activation} :
    (Entries.Sorted tables.activations → Entries.Sorted activations) →
    (∀ id a', activations.lookup id = some a' →
      ∃ a, tables.activations.lookup id = some a ∧ a.Restamped a') →
    Effect tables tx { tables with activations } []

section Effects

variable {tables t : Tables} {catalogue : Catalogue} {tx : Tx} {id actor : String}
  {user eligibilityId requestId : String}

theorem owner_ok {e : Entitlement} :
    tables.owner catalogue user id = .ok e →
      lookup tables.entitlements id = some e ∧ e.configuration.ownerUserId = user := by
  simp only [owner, entitlement, bind_ok, okOr_ok, refuseIf_ok, pure_ok, exists_const]
  rintro ⟨e, he, href, rfl⟩
  exact ⟨he, by tauto⟩

theorem effect_of_saveConfiguration {id expected : Option String} {c : EntitlementConfiguration}
    (h : tables.saveConfiguration catalogue parseUrl actor id expected c tx = .ok t) :
    Effect tables tx t [] := by
  simp only [saveConfiguration, bind_ok, refuseIf_ok, exists_const] at h
  obtain ⟨-, -, -, -, -, -, -, h⟩ := h
  split at h
  · simp only [bind_ok, refuseIf_ok, exists_const, pure_ok] at h
    obtain ⟨_, hold, -, -, rfl⟩ := h
    exact .editEntitlement _ _ rfl (.inr (by rw [(owner_ok hold).1]; rfl))
  · obtain rfl := pure_ok.1 h
    exact .editEntitlement _ _ rfl (.inl rfl)

theorem effect_of_eligibilitySet {c : EligibilityChange}
    (h : tables.eligibilitySet catalogue actor id c tx = .ok t)
    (hso : Sorted tables.eligibilities) : Effect tables tx t [] := by
  simp only [eligibilitySet, bind_ok, refuseIf_ok, exists_const] at h
  obtain ⟨_, -, -, -, h⟩ := h
  split at h
  · next eligibilityId el expected hfd _ =>
    simp only [bind_ok, refuseIf_ok, exists_const, pure_ok] at h
    obtain ⟨-, rfl⟩ := h
    have hlk := hso.lookup_of_mem (List.mem_of_find?_eq_some hfd)
    exact .editEligibility _ _ rfl (.inr (hlk ▸ rfl))
  · obtain rfl := pure_ok.1 h
    exact .editEligibility _ _ rfl (.inl rfl)
  · exact absurd h throw_ne_ok

theorem effect_of_eligibilityRemove {expected : String}
    (h : tables.eligibilityRemove catalogue actor id eligibilityId expected tx = .ok t) :
    Effect tables tx t [] := by
  simp only [eligibilityRemove, bind_ok, okOr_ok, pure_ok, Option.filter_eq_some_iff] at h
  obtain ⟨_, -, _, ⟨hel, -⟩, rfl⟩ := h
  exact .editEligibility _ _ rfl (.inr (hel ▸ rfl))

theorem eligible_ok {now : ℤ} {el : Eligibility} (hso : Sorted tables.eligibilities)
    (h : tables.eligible catalogue id user now = .ok (eligibilityId, el)) :
    lookup tables.eligibilities eligibilityId = some el ∧ el.entitlementId = id ∧
    el.userId = user := by
  simp only [eligible, okOr_ok] at h
  have hmem := hso.lookup_of_mem (List.mem_of_find?_eq_some h)
  have hp := List.find?_some h
  simp only [Bool.and_eq_true, decide_eq_true_eq] at hp
  exact ⟨hmem, hp.1.1, hp.1.2⟩

theorem effect_of_submit {actor : SessionActor} {c : RequestActivation} {entry : Entry}
    (hso : Sorted tables.eligibilities)
    (h : tables.submit catalogue ladderRevision actor c tx = .ok (t, entry)) :
    Effect tables tx t [entry] := by
  simp only [submit, bind_ok, refuseIf_ok, exists_const, pure_ok, Prod.exists, entitlement,
    okOr_ok] at h
  obtain ⟨-, -, -, -, _, he, -, -, _, _, hel, -, -, rfl, rfl⟩ := h
  obtain ⟨hlk, hen, hu⟩ := eligible_ok hso hel
  exact .submit he hlk ⟨rfl, rfl, hen, hu, rfl⟩

variable {r : EntitlementRequest}

/-- A request that is read as pending is stored so. -/
theorem request_ok {clock : ℤ} (h : tables.request catalogue id clock = .ok r)
    (hpd : r.status = .pending) : lookup tables.requests id = some r := by
  simp only [request, bind_ok, okOr_ok, pure_ok] at h
  obtain ⟨r₀, hr₀, rfl⟩ := h
  have hsto : r₀.status = .pending := by
    by_contra hne
    simp only [requestStatus, ne_eq, hne, not_false_eq_true, if_true] at hpd
  rw [hr₀]
  simp only at hpd
  rw [hpd, ← hsto]

theorem activate_ok {revision : String}
    {stop : ℤ} (h : tables.activate requestId r revision stop tx = .ok t) :
    (∀ entry ∈ tables.activations, tables.Superseded r revision tx.now entry.2) ∧
      ∃ a, t = { tables with activations := tables.activations.insert tx.id a } ∧
      a.requestId = requestId ∧ a.entitlementId = r.entitlementId ∧
      a.userId = r.requesterUserId ∧ a.activatedAt = tx.now ∧
      a.expiresAt = min (tx.now + seconds r.durationSeconds) stop := by
  simp only [activate, bind_ok, refuseIf_ok, exists_const, pure_ok] at h
  obtain ⟨hno, rfl⟩ := h
  refine ⟨fun entry hent hlv => hno ⟨entry, hent, ?_⟩, _, rfl, rfl, rfl, rfl, rfl, rfl⟩
  obtain ⟨_, _, hr', hel, h₁, h₂, h₃, h₄, h₅, h₆, h₇⟩ := hlv
  simp [hr', hel, h₁, h₂, h₃, h₄, h₅, h₆, h₇]

variable {es : List Entry}

theorem effect_of_decision {actor : SessionActor} {c : DecideRequest}
    (hso : Sorted tables.eligibilities)
    (h : tables.decision catalogue ladderRevision actor c tx = .ok (t, es)) :
    Effect tables tx t es := by
  simp only [decision, bind_ok, refuseIf_ok, exists_const, pure_ok, Prod.exists,
    entitlement, okOr_ok] at h
  obtain ⟨-, -, _, hr, _, he, hact, _, _, hel, hed, -, -, hcur, _, had, rfl, rfl⟩ := h
  push Not at hact hcur
  obtain ⟨hpd, -, rfl, hrev, hpol, -⟩ := hcur
  obtain ⟨hlk, _, _⟩ := eligible_ok hso hel
  have hsto := request_ok hr hpd
  by_cases hap : c.approve = true
  · simp only [hap, if_true] at had ⊢
    obtain ⟨hsup, _, rfl, hreq, hent, haus, hat, hexp⟩ :=
      activate_ok had
    refine .approve hsto hpd rfl rfl rfl he hlk hpol hrev
      ⟨hact.1, Ne.symm hact.2.1, Ne.symm hact.2.2, Ne.symm hed⟩
      ⟨hreq, hent, haus, hat, ?_, ?_⟩ hsup
    · exact hexp ▸ min_le_left _ _
    · exact hexp ▸ min_le_right _ _
  · simp only [hap, if_false, Bool.false_eq_true, activateIf,
      Except.ok.injEq] at had ⊢
    subst had
    exact .close hsto hpd rfl

theorem effect_of_cancellation {actor : SessionActor}
    (h : tables.cancellation catalogue ladderRevision actor requestId tx = .ok t) :
    Effect tables tx t [] := by
  simp only [cancellation, bind_ok, refuseIf_ok, exists_const, pure_ok] at h
  obtain ⟨-, -, _, hr, -, hcur, rfl⟩ := h
  push Not at hcur
  exact .close (request_ok hr hcur.1) hcur.1 rfl

theorem effect_refl (tables : Tables) (tx : Tx) : Effect tables tx tables [] :=
  .restamp id fun _ a' ha' => ⟨a', ha', .refl a'⟩

theorem effect_of_revocation {sessionActor : Option SessionActor} {entitlementId : Option String}
    {c : RevokeActivation}
    (h : tables.revocation catalogue ladderRevision actor sessionActor entitlementId c tx = .ok t) :
    Effect tables tx t [] := by
  simp only [revocation, bind_ok, activation, okOr_ok, pure_ok] at h
  obtain ⟨_, -, _, -, a, ha, _, -, rfl⟩ := h
  unfold endActivation
  split_ifs
  · refine .restamp (·.insert _ _) fun id a' ha' => ?_
    rw [lookup_insert] at ha'
    split_ifs at ha' with hid
    · cases ha'
      exact ⟨a, hid ▸ ha, rfl, fun hno => absurd hno (by simp)⟩
    · exact ⟨a', ha', .refl a'⟩
  · exact effect_refl tables tx

theorem effect_of_expiry {limit : ℕ} (h : tables.expiry limit tx = .ok t) :
    Effect tables tx t [] := by
  simp only [expiry, bind_ok, refuseIf_ok, exists_const, pure_ok] at h
  obtain ⟨-, rfl⟩ := h
  refine .restamp (·.updateWhere _ _) fun id a' ha' => ?_
  rw [lookup_updateWhere, Option.map_eq_some_iff] at ha'
  obtain ⟨a, ha, rfl⟩ := ha'
  refine ⟨a, ha, ?_⟩
  split_ifs
  · exact ⟨rfl, fun hno => hno⟩
  · exact .refl a

/-- A transaction that adds nothing to the history. -/
theorem effect_of_map {x : Except DomainError Tables} (h : (·, []) <$> x = .ok (t, es))
    (hx : ∀ t, x = .ok t → Effect tables tx t []) : Effect tables tx t es := by
  obtain ⟨t, hrun, heq⟩ := map_ok.1 h
  cases heq
  exact hx t hrun

theorem effect_of_run {command : Command} (hso : Sorted tables.eligibilities)
    (h : command.run parseUrl ladderRevision tables catalogue tx = .ok (t, es)) :
    Effect tables tx t es := by
  cases command with
  | configure => exact effect_of_map h fun _ => effect_of_saveConfiguration
  | setEligibility => exact effect_of_map h fun _ hrun => effect_of_eligibilitySet hrun hso
  | removeEligibility => exact effect_of_map h fun _ => effect_of_eligibilityRemove
  | submit =>
    obtain ⟨_, hrun, heq⟩ := map_ok.1 h
    cases heq
    exact effect_of_submit hso hrun
  | decide => exact effect_of_decision hso h
  | cancel => exact effect_of_map h fun _ => effect_of_cancellation
  | revoke => exact effect_of_map h fun _ => effect_of_revocation
  | expire => exact effect_of_map h fun _ => effect_of_expiry

end Effects

variable {s' : State} {id : String} {s : State}

/-- **Steps.**  A step changes the catalogue alone, or it is a transaction that runs now. -/
theorem effect_of_apply {e : Event} (hso : Sorted s.tables.eligibilities)
    (h : s.apply parseUrl ladderRevision e = some s') :
    (∃ catalogue, s' = { s with catalogue }) ∨
      ∃ tx t es, s.admits tx = true ∧ Effect s.tables tx t es ∧
      s' = s.commit tx t es := by
  cases e with
  | setCatalogue catalogue => exact .inl ⟨catalogue, (Option.some.inj h).symm⟩
  | run command tx =>
    simp only [State.apply] at h
    split_ifs at h with hadmits
    split at h
    · next t es hrun =>
      exact .inr ⟨tx, t, es, by simpa using hadmits, effect_of_run hso hrun,
        (Option.some.inj h).symm⟩
    · cases h
  | disable id dropped tx =>
    simp only [State.apply] at h
    split_ifs at h with hadmits
    obtain ⟨row, hrow, rfl⟩ := Option.map_eq_some_iff.1 h
    exact .inr ⟨tx, _, _, by simpa using hadmits,
      .editEntitlement id _ rfl (.inr (hrow ▸ rfl)), rfl⟩
  | withdraw eligibilityId tx =>
    simp only [State.apply] at h
    split_ifs at h with hadmits
    obtain ⟨row, hrow, rfl⟩ := Option.map_eq_some_iff.1 h
    exact .inr ⟨tx, _, _, by simpa using hadmits,
      .editEligibility eligibilityId _ rfl (.inr (hrow ▸ rfl)), rfl⟩

/-! ### What a transaction keeps -/

section Keeps

variable {tables t : Tables} {tx : Tx} {es : List Entry} {id : String}

section

variable {α : Type} {revision : α → String} {m m' : Entries String α} {used : Finset String}

/-- A row is one that was there, or has the revision of the transaction. -/
def Edited (revision : α → String) (tx : Tx) (m m' : Entries String α) : Prop :=
  ∀ id row, m'.lookup id = some row → m.lookup id = some row ∨
    revision row = tx.revision ∧ (id = tx.id ∨ (m.lookup id).isSome)

theorem Edited.refl : Edited revision tx m m := fun _ _ hrow => .inl hrow

theorem Edited.insert {row : α} (hrev : revision row = tx.revision)
    (hid : id = tx.id ∨ (lookup m id).isSome) : Edited revision tx m (m.insert id row) := by
  intro _ _ hrow
  rw [lookup_insert] at hrow
  split_ifs at hrow with heq
  · cases hrow
    exact .inr ⟨hrev, heq ▸ hid⟩
  · exact .inl hrow

variable (h : Edited revision tx m m')
include h

/-- A row whose revision was known before was there. -/
theorem Edited.known (hnew : tx.revision ∉ used) {row : α} (hrow : lookup m' id = some row)
    (hkn : revision row ∈ used) : lookup m id = some row :=
  (h id row hrow).resolve_right fun hrev => hnew (hrev.1 ▸ hkn)

theorem Edited.mem_used (hm : ∀ id row, lookup m id = some row → id ∈ used ∧ revision row ∈ used)
    {row : α} (hrow : lookup m' id = some row) :
    id ∈ used ∪ {tx.id, tx.revision} ∧ revision row ∈ used ∪ {tx.id, tx.revision} := by
  simp only [Finset.mem_union]
  rcases h id row hrow with hbef | ⟨hrev, rfl | hid⟩
  · exact (hm id row hbef).imp .inl .inl
  · simp [hrev]
  · obtain ⟨row₀, hrow₀⟩ := Option.isSome_iff_exists.1 hid
    exact ⟨.inl (hm id row₀ hrow₀).1, by simp [hrev]⟩

end

theorem edited_of_effect (h : Effect tables tx t es) :
    Edited Entitlement.revision tx tables.entitlements t.entitlements ∧
    Edited Eligibility.revision tx tables.eligibilities t.eligibilities := by
  cases h with
  | editEntitlement id row hrev hid => exact ⟨.insert hrev hid, .refl⟩
  | editEligibility id row hrev hid => exact ⟨.refl, .insert hrev hid⟩
  | submit | close | approve | restamp => exact ⟨.refl, .refl⟩

theorem EntitlementRequest.Decided.refl (r : EntitlementRequest) : r.Decided r := rfl

section

variable (h : Effect tables tx t es)
include h

/-- A request stays, with its decision once it has one. -/
theorem request_kept {r : EntitlementRequest} (hr : lookup tables.requests id = some r)
    (hid : id ≠ tx.id) :
    ∃ r', lookup t.requests id = some r' ∧ r.Decided r' ∧ (r.status ≠ .pending → r' = r) := by
  -- a decision is written over a request that is pending
  have hde : ∀ {id' : String} {r₀ r₁ : EntitlementRequest},
      lookup tables.requests id' = some r₀ → r₀.status = .pending → r₀.Decided r₁ →
      ∃ r', lookup (tables.requests.insert id' r₁) id = some r' ∧ r.Decided r' ∧
      (r.status ≠ .pending → r' = r) := by
    intro id' _ r₁ hr₀ hpd hdec
    rw [lookup_insert]
    by_cases heq : id = id'
    · subst heq
      cases hr.symm.trans hr₀
      exact ⟨r₁, if_pos rfl, hdec, fun hne => absurd hpd hne⟩
    · exact ⟨r, by rw [if_neg heq, hr], .refl r, fun _ => rfl⟩
  cases h with
  | submit => exact ⟨r, by rw [lookup_insert_of_ne _ _ hid, hr], .refl r, fun _ => rfl⟩
  | close hr₀ hpd hdec => exact hde hr₀ hpd hdec
  | approve hr₀ hpd hdec => exact hde hr₀ hpd hdec
  | editEntitlement | editEligibility | restamp => exact ⟨r, hr, .refl r, fun _ => rfl⟩

/-- A request was there before, or it has just been submitted. -/
theorem request_of_effect (hr : (lookup t.requests id).isSome) :
    (lookup tables.requests id).isSome ∨ id = tx.id ∧ ∃ e el, es = [.submitted tx.id e el] := by
  have hins : ∀ {id' : String} {r₀ r₁ : EntitlementRequest},
      lookup tables.requests id' = some r₀ →
      (lookup (tables.requests.insert id' r₁) id).isSome →
      (lookup tables.requests id).isSome := by
    intro id' _ _ hr₀ hso
    by_cases heq : id = id'
    · rw [heq, hr₀]
      rfl
    · rwa [lookup_insert_of_ne _ _ heq] at hso
  cases h with
  | submit =>
    by_cases heq : id = tx.id
    · exact .inr ⟨heq, _, _, rfl⟩
    · exact .inl (by rwa [lookup_insert_of_ne _ _ heq] at hr)
  | close hr₀ => exact .inl (hins hr₀ hr)
  | approve hr₀ => exact .inl (hins hr₀ hr)
  | editEntitlement | editEligibility | restamp => exact .inl hr

/-- An activation was there before, or its request has just been approved. -/
theorem activation_of_effect {a' : Activation} (ha : lookup t.activations id = some a') :
    (∃ a, lookup tables.activations id = some a ∧ a.Restamped a') ∨
      id = tx.id ∧ ∃ approver r r' e el,
        es = [.approved a'.requestId tx.id approver tx.now e el] ∧
        lookup tables.requests a'.requestId = some r ∧ r.status = .pending ∧
        r.Decided r' ∧ lookup t.requests a'.requestId = some r' ∧
        r'.status = .approved ∧ r'.decidedBy = some approver ∧
        lookup tables.entitlements r.entitlementId = some e ∧
        lookup tables.eligibilities r.eligibilityId = some el ∧
        e.revision = r.policyRevision ∧ el.revision = r.eligibilityRevision ∧
        Independent approver r e el ∧ a'.Of a'.requestId r el tx.now ∧
        ∀ entry ∈ tables.activations, tables.Superseded r e.revision tx.now entry.2 := by
  cases h with
  | restamp hso hrs => exact .inl (hrs id a' ha)
  | @approve rid approver r r' e el a hr hpd hdec hap hby he hel hpol helig
      hind hof hsup =>
    by_cases heq : id = tx.id
    · subst heq
      rw [lookup_insert_self, Option.some.injEq] at ha
      subst ha
      obtain rfl := hof.request
      exact .inr ⟨rfl, approver, r, r', e, el, rfl, hr, hpd, hdec,
        lookup_insert_self .., hap, hby, he, hel, hpol, helig,
        hind, hof, hsup⟩
    · rw [lookup_insert_of_ne _ _ heq] at ha
      exact .inl ⟨a', ha, .refl a'⟩
  | editEntitlement | editEligibility | submit | close => exact .inl ⟨a', ha, .refl a'⟩

theorem sorted_of_effect :
    (Sorted tables.eligibilities → Sorted t.eligibilities) ∧
      (Sorted tables.activations → Sorted t.activations) := by
  cases h with
  | editEligibility => exact ⟨(·.insert _ _), id⟩
  | approve => exact ⟨id, (·.insert _ _)⟩
  | restamp hso => exact ⟨id, hso⟩
  | editEntitlement | submit | close => exact ⟨id, id⟩

end

end Keeps

/-! ### Decisions leave a request what it asks for -/

namespace EntitlementRequest.Decided

variable {r r' : EntitlementRequest} {e : Entitlement} {el : Eligibility}

section

variable (h : r.Decided r')
include h

theorem against (haga : r.Against e el) : r'.Against e el := by
  rw [h]
  exact { haga with }

theorem independent {approver : String}
    (hind : Independent approver r e el) : Independent approver r' e el := by
  rw [h]
  exact { hind with }

theorem of {a : Activation} {id : String} {at_ : ℤ} (hof : a.Of id r el at_) :
    a.Of id r' el at_ := by
  rw [h]
  exact { hof with }

theorem entitlementId : r'.entitlementId = r.entitlementId := by rw [h]

theorem eligibilityId : r'.eligibilityId = r.eligibilityId := by rw [h]

end

end EntitlementRequest.Decided

variable {a a' : Activation} {r : EntitlementRequest} {el : Eligibility}

theorem Activation.Restamped.of (h : a.Restamped a')
    {at_ : ℤ} (hof : a.Of id r el at_) : a'.Of id r el at_ := by
  rw [h.same]
  exact { hof with }

theorem Activation.Restamped.requestId (h : a.Restamped a') :
    a'.requestId = a.requestId := by rw [h.same]

/-! ### The invariant -/

/-- An activation goes back to a request that an independent approver approved, against the rows
the request was made against. -/
def State.Approved (s : State) (id : String) (a : Activation) : Prop :=
  ∃ approver at_ e el r, .approved a.requestId id approver at_ e el ∈ s.log ∧
    .submitted a.requestId e el ∈ s.log ∧ s.tables.requests.lookup a.requestId = some r ∧
    r.status = .approved ∧ r.decidedBy = some approver ∧ Independent approver r e el ∧
    a.Of a.requestId r el at_

/-- The rows a request was made against are the current ones as long as their revisions are. -/
structure State.Submitted (s : State) (r : EntitlementRequest) (e : Entitlement)
    (el : Eligibility) : Prop where
  known : e.revision ∈ s.used ∧ el.revision ∈ s.used
  against : r.Against e el
  entitlement : ∀ e', s.tables.entitlements.lookup r.entitlementId = some e' →
    e'.revision = e.revision → e' = e
  eligibility : ∀ el', s.tables.eligibilities.lookup r.eligibilityId = some el' →
    el'.revision = el.revision → el' = el

/-- The invariant of the tables. -/
structure Sound (s : State) : Prop where
  sortedEligibilities : Entries.Sorted s.tables.eligibilities
  sortedActivations : Entries.Sorted s.tables.activations
  entitlements : ∀ id e, s.tables.entitlements.lookup id = some e →
    id ∈ s.used ∧ e.revision ∈ s.used
  eligibilities : ∀ id el, s.tables.eligibilities.lookup id = some el →
    id ∈ s.used ∧ el.revision ∈ s.used
  requestIds : ∀ id, (s.tables.requests.lookup id).isSome → id ∈ s.used
  activationIds : ∀ id, (s.tables.activations.lookup id).isSome → id ∈ s.used
  submitted : ∀ id e el, .submitted id e el ∈ s.log →
    ∃ r, s.tables.requests.lookup id = some r ∧ s.Submitted r e el
  requests : ∀ id, (s.tables.requests.lookup id).isSome →
    ∃ e el, .submitted id e el ∈ s.log
  activations : ∀ id a, s.tables.activations.lookup id = some a → s.Approved id a

/-- A request with the entry of the history it goes back to. -/
theorem Sound.exists_submitted (h : Sound s) (hr : lookup s.tables.requests id = some r) :
    ∃ e el, .submitted id e el ∈ s.log ∧ s.Submitted r e el := by
  obtain ⟨e, el, hmem⟩ := h.requests id (hr ▸ rfl)
  obtain ⟨_, hr', hsb⟩ := h.submitted id e el hmem
  cases hr.symm.trans hr'
  exact ⟨e, el, hmem, hsb⟩

theorem admits_iff {tx : Tx} : s.admits tx = true ↔
    s.clock ≤ tx.now ∧ tx.now ≤ tx.clock ∧ tx.id ∉ s.used ∧ tx.revision ∉ s.used := by
  simp [State.admits]

section Commit

variable {s : State} {t : Tables} {tx : Tx} {es : List Entry}

theorem subset_commit : s.used ⊆ (s.commit tx t es).used := Finset.subset_union_left

theorem State.Submitted.commit (hadmits : s.admits tx = true) (h : Effect s.tables tx t es)
    {r r' : EntitlementRequest} {e : Entitlement} {el : Eligibility} (hs : s.Submitted r e el)
    (hdec : r.Decided r') : (s.commit tx t es).Submitted r' e el where
  known := ⟨subset_commit hs.known.1, subset_commit hs.known.2⟩
  against := hdec.against hs.against
  entitlement e' he' hrev := by
    rw [hdec.entitlementId] at he'
    -- a row that was edited has a revision that no entry has
    exact hs.entitlement e' ((edited_of_effect h).1.known (admits_iff.1 hadmits).2.2.2 he'
      (hrev ▸ hs.known.1)) hrev
  eligibility el' hel' hrev := by
    rw [hdec.eligibilityId] at hel'
    exact hs.eligibility el' ((edited_of_effect h).2.known (admits_iff.1 hadmits).2.2.2 hel'
      (hrev ▸ hs.known.2)) hrev

variable {id : String}

section

variable (hs : Sound s) (hadmits : s.admits tx = true)
include hs hadmits

/-- A request that is stored is not the one the transaction generates an identifier for. -/
theorem Sound.ne_of_lookup (hid : (lookup s.tables.requests id).isSome) : id ≠ tx.id := by
  rintro rfl
  exact (admits_iff.1 hadmits).2.2.1 (hs.requestIds _ hid)

section

variable (h : Effect s.tables tx t es)
include h

/-- The entries of a transaction are about what it wrote. -/
theorem Sound.submitted_commit {e : Entitlement} {el : Eligibility}
    (hmem : .submitted id e el ∈ s.log ++ es) :
    ∃ r, lookup t.requests id = some r ∧ (s.commit tx t es).Submitted r e el := by
  rcases List.mem_append.1 hmem with hold | hnew
  · obtain ⟨r, hr, hsb⟩ := hs.submitted id e el hold
    obtain ⟨r', hr', hdec, -⟩ :=
      request_kept h hr (hs.ne_of_lookup hadmits (hr ▸ rfl))
    exact ⟨r', hr', hsb.commit hadmits h hdec⟩
  · cases h with
    | @submit r e₀ el₀ he hel haga =>
      obtain ⟨rfl, rfl, rfl⟩ := Entry.submitted.inj (List.mem_singleton.1 hnew)
      refine ⟨r, lookup_insert_self .., ⟨subset_commit (hs.entitlements _ _ he).2,
        subset_commit (hs.eligibilities _ _ hel).2⟩, haga, fun e' he' _ => ?_,
        fun el' hel' _ => ?_⟩
      · exact Option.some.inj (he'.symm.trans he)
      · exact Option.some.inj (hel'.symm.trans hel)
    | approve => exact absurd (List.mem_singleton.1 hnew) nofun
    | editEntitlement | editEligibility | close | restamp => exact absurd hnew List.not_mem_nil

theorem Sound.approved_commit {a' : Activation}
    (ha : lookup t.activations id = some a') : (s.commit tx t es).Approved id a' := by
  rcases activation_of_effect h ha with ⟨a, hbef, hrs⟩ |
    ⟨rfl, approver, r, r', e, el, hes, hr, _, hdec, hr', hap, hby, he, hel,
      hpol, helig, hind, hof, -⟩
  · obtain ⟨approver, at_, e, el, _, hlog, hsb, hr, hap, hby, hind, hof⟩ :=
      hs.activations id a hbef
    obtain ⟨r', hr', -, hsm⟩ := request_kept h hr (hs.ne_of_lookup hadmits (hr ▸ rfl))
    obtain rfl := hsm (by rw [hap]; decide)
    rw [State.Approved, hrs.requestId]
    exact ⟨approver, at_, e, el, r', List.mem_append_left _ hlog,
      List.mem_append_left _ hsb, hr', hap, hby, hind, hrs.of hof⟩
  · obtain ⟨_, _, hmem, hsb⟩ := hs.exists_submitted hr
    -- the revisions were checked, so the rows of the approval are those of the request
    obtain rfl := hsb.entitlement e he (hpol.trans hsb.against.policyRevision)
    obtain rfl := hsb.eligibility el hel
      (helig.trans hsb.against.eligibilityRevision)
    exact ⟨approver, tx.now, e, el, r', List.mem_append_right _ (by simp [hes]),
      List.mem_append_left _ hmem, hr', hap, hby, hdec.independent hind,
      hdec.of hof⟩

theorem Sound.commit : Sound (s.commit tx t es) where
  sortedEligibilities := (sorted_of_effect h).1 hs.sortedEligibilities
  sortedActivations := (sorted_of_effect h).2 hs.sortedActivations
  entitlements _ _ := (edited_of_effect h).1.mem_used hs.entitlements
  eligibilities _ _ := (edited_of_effect h).2.mem_used hs.eligibilities
  requestIds id hid := by
    rcases request_of_effect h hid with hbef | ⟨rfl, -⟩
    · exact subset_commit (hs.requestIds id hbef)
    · simp [State.commit]
  activationIds id hid := by
    obtain ⟨a, ha⟩ := Option.isSome_iff_exists.1 hid
    rcases activation_of_effect h ha with ⟨_, hbef, -⟩ | ⟨rfl, -⟩
    · exact subset_commit (hs.activationIds id (hbef ▸ rfl))
    · simp [State.commit]
  submitted id e el hmem := hs.submitted_commit hadmits h hmem
  requests id hid := by
    rcases request_of_effect h hid with hbef | ⟨rfl, e, el, rfl⟩
    · obtain ⟨e, el, hmem⟩ := hs.requests id hbef
      exact ⟨e, el, List.mem_append_left _ hmem⟩
    · exact ⟨e, el, List.mem_append_right _ (List.mem_singleton.2 rfl)⟩
  activations id a ha := hs.approved_commit hadmits h ha

end

end

end Commit

theorem sound_init (catalogue : Catalogue) (clock : ℤ) : Sound (State.init catalogue clock) where
  sortedEligibilities := List.Pairwise.nil
  sortedActivations := List.Pairwise.nil
  entitlements _ _ h := absurd h nofun
  eligibilities _ _ h := absurd h nofun
  requestIds _ h := absurd h nofun
  activationIds _ h := absurd h nofun
  submitted _ _ _ h := absurd h List.not_mem_nil
  requests _ h := absurd h nofun
  activations _ _ h := absurd h nofun

theorem Sound.apply {e : Event} (hs : Sound s)
    (h : s.apply parseUrl ladderRevision e = some s') : Sound s' := by
  rcases effect_of_apply hs.sortedEligibilities h with ⟨_, rfl⟩ |
    ⟨_, _, _, hadmits, heff, rfl⟩
  · refine { hs with submitted := fun id e el hmem => ?_ }
    obtain ⟨r, hr, hsb⟩ := hs.submitted id e el hmem
    exact ⟨r, hr, { hsb with }⟩
  · exact hs.commit hadmits heff

/-! ### At most one live activation -/

/-- What the resolver asks of an activation and the rows behind it. -/
structure Tables.Live (tables : Tables) (now : ℤ) (a : Activation) (r : EntitlementRequest)
    (e : Entitlement) (el : Eligibility) : Prop where
  request : tables.requests.lookup a.requestId = some r
  entitlement : tables.entitlements.lookup r.entitlementId = some e
  eligibility : tables.eligibilities.lookup r.eligibilityId = some el
  policyRevision : e.revision = r.policyRevision
  eligibilityRevision : el.revision = r.eligibilityRevision
  eligible : el.revokedAt = none
  unrevoked : a.revokedAt = none
  activated : a.activatedAt ≤ now
  unexpired : now < a.expiresAt

section Unique

variable {s : State} {t : Tables} {tx : Tx} {es : List Entry} {id : String} {a : Activation}
  {now : ℤ} {e : Entitlement} {el : Eligibility}

/-- An activation that is live after a transaction was live before it. -/
theorem Sound.live_of_effect (hs : Sound s) (hadmits : s.admits tx = true)
    (h : Effect s.tables tx t es) {a' : Activation}
    (ha : lookup s.tables.activations id = some a) (hrs : a.Restamped a') {r' : EntitlementRequest}
    (hlv : t.Live now a' r' e el) : ∃ r e el, s.tables.Live now a r e el := by
  obtain ⟨_, _, _, _, r, _, _, hr, -⟩ := hs.activations id a ha
  obtain ⟨_, _, -, hsb⟩ := hs.exists_submitted hr
  obtain ⟨r₁, hr₁, hdec, -⟩ := request_kept h hr (hs.ne_of_lookup hadmits (hr ▸ rfl))
  have hsm : r₁ = r' := by
    have hr' := hlv.request
    rw [hrs.requestId] at hr'
    exact Option.some.inj (hr₁.symm.trans hr')
  subst hsm
  have hun := (admits_iff.1 hadmits).2.2.2
  have haga := hdec.against hsb.against
  have hper := And.intro hlv.activated hlv.unexpired
  rw [hrs.same] at hper
  refine ⟨r, e, el, hr, ?_, ?_, ?_, ?_, hlv.eligible, hrs.revoked hlv.unrevoked, hper.1, hper.2⟩
  · rw [← hdec.entitlementId]
    refine (edited_of_effect h).1.known hun hlv.entitlement ?_
    rw [hlv.policyRevision, haga.policyRevision]
    exact hsb.known.1
  · rw [← hdec.eligibilityId]
    refine (edited_of_effect h).2.known hun hlv.eligibility ?_
    rw [hlv.eligibilityRevision, haga.eligibilityRevision]
    exact hsb.known.2
  · rw [hlv.policyRevision, haga.policyRevision, hsb.against.policyRevision]
  · rw [hlv.eligibilityRevision, haga.eligibilityRevision, hsb.against.eligibilityRevision]

variable {r : EntitlementRequest}

/-- What was superseded when a request was approved is not live once the approval counts. -/
theorem Sound.not_live_of_superseded (hs : Sound s) (ha : lookup s.tables.activations id = some a)
    (he : lookup s.tables.entitlements r.entitlementId = some e) {at_ : ℤ}
    (hsup : s.tables.Superseded r e.revision at_ a) (hel : a.entitlementId = r.entitlementId)
    (hu : a.userId = r.requesterUserId) (hnow : at_ ≤ now) :
    ¬∃ r e el, s.tables.Live now a r e el := by
  rintro ⟨_, e₁, el₁, hlv⟩
  obtain ⟨_, _, _, _, r₂, _, _, hr₂, _, _, _, hof⟩ := hs.activations id a ha
  obtain rfl := Option.some.inj (hr₂.symm.trans hlv.request)
  -- both requests are for the one entitlement, so both revisions are its revision
  have hsm : e₁ = e := by
    have he₁ := hlv.entitlement
    rw [← hof.entitlement, hel] at he₁
    exact Option.some.inj (he₁.symm.trans he)
  exact hsup ⟨r₂, el₁, hlv.request, hlv.eligibility, hel, hu,
    hlv.unrevoked, lt_of_le_of_lt hnow hlv.unexpired, hlv.eligible,
    hlv.eligibilityRevision, by rw [← hlv.policyRevision, hsm]⟩

/-- No two activations of one user for one entitlement are live at one moment. -/
def State.Unique (s : State) : Prop :=
  ∀ id₁ id₂ a₁ a₂, s.tables.activations.lookup id₁ = some a₁ →
    s.tables.activations.lookup id₂ = some a₂ →
    a₁.entitlementId = a₂.entitlementId → a₁.userId = a₂.userId → ∀ now,
    (∃ r e el, s.tables.Live now a₁ r e el) → (∃ r e el, s.tables.Live now a₂ r e el) → id₁ = id₂

/-- An activation that was there before is not live beside one that a transaction adds. -/
theorem Sound.not_live_beside (hs : Sound s) (hadmits : s.admits tx = true)
    (h : Effect s.tables tx t es) {a' b : Activation} (ha : lookup s.tables.activations id = some a)
    (hrs : a.Restamped a') (he : lookup s.tables.entitlements r.entitlementId = some e)
    (hof : b.Of b.requestId r el tx.now)
    (hsup : ∀ entry ∈ s.tables.activations, s.tables.Superseded r e.revision tx.now entry.2)
    (hel : a'.entitlementId = b.entitlementId) (hu : a'.userId = b.userId)
    (hnow : b.activatedAt ≤ now) : ¬∃ r e el, t.Live now a' r e el := by
  rintro ⟨_, _, _, hlv⟩
  rw [hrs.same] at hel hu
  exact hs.not_live_of_superseded ha he (hsup _ (mem_of_lookup ha))
    (hel.trans hof.entitlement) (hu.trans hof.user) (hof.activatedAt ▸ hnow)
    (hs.live_of_effect hadmits h ha hrs hlv)

theorem Sound.unique_commit (hs : Sound s) (huq : s.Unique) (hadmits : s.admits tx = true)
    (h : Effect s.tables tx t es) : (s.commit tx t es).Unique := by
  intro id₁ id₂ _ _ ha₁ ha₂ hel hu now hlv₁ hlv₂
  rcases activation_of_effect h ha₁ with ⟨b₁, hb₁, hrs₁⟩ |
    ⟨rfl, _, r, _, e, el, -, -, -, -, -, -, -, he, -, -, -, -, hof, hsup⟩
  · rcases activation_of_effect h ha₂ with ⟨b₂, hb₂, hrs₂⟩ |
      ⟨rfl, _, _, _, _, _, -, -, -, -, -, -, -, he, -, -, -, -, hof, hsup⟩
    · obtain ⟨_, _, _, hlv₁⟩ := hlv₁
      obtain ⟨_, _, _, hlv₂⟩ := hlv₂
      rw [hrs₁.same, hrs₂.same] at hel hu
      exact huq id₁ id₂ b₁ b₂ hb₁ hb₂ hel hu now
        (hs.live_of_effect hadmits h hb₁ hrs₁ hlv₁)
        (hs.live_of_effect hadmits h hb₂ hrs₂ hlv₂)
    · obtain ⟨_, _, _, hnew⟩ := hlv₂
      exact absurd hlv₁ (hs.not_live_beside hadmits h hb₁ hrs₁ he hof hsup
        hel hu hnew.activated)
  · rcases activation_of_effect h ha₂ with ⟨_, hb₂, hrs₂⟩ | ⟨rfl, -⟩
    · obtain ⟨_, _, _, hnew⟩ := hlv₁
      exact absurd hlv₂ (hs.not_live_beside hadmits h hb₂ hrs₂ he hof hsup
        hel.symm hu.symm hnew.activated)
    · rfl

end Unique

variable {events : List Event}

/-- **Runs.**  Every history keeps the invariant, and with it that live activations are unique. -/
theorem sound_of_path {catalogue : Catalogue} {clock : ℤ}
    (h : (system parseUrl ladderRevision).Path (State.init catalogue clock) events s) :
    Sound s ∧ s.Unique := by
  refine h.invariant (I := fun s => Sound s ∧ s.Unique) (fun s e s' hst hs => ?_)
    ⟨sound_init catalogue clock, fun _ _ _ _ ha => absurd ha nofun⟩
  refine ⟨hs.1.apply hst, ?_⟩
  rcases effect_of_apply hs.1.sortedEligibilities hst with ⟨_, rfl⟩ |
    ⟨_, _, _, hadmits, heff, rfl⟩
  · exact hs.2
  · exact hs.1.unique_commit hs.2 hadmits heff

/-! ### Since a request was made -/

/-- What a later state says about an earlier one: a row whose revision was known then was there. -/
structure State.Since (s s' : State) : Prop where
  used : s.used ⊆ s'.used
  log : s.log ⊆ s'.log
  entitlement : ∀ id e, e.revision ∈ s.used → s'.tables.entitlements.lookup id = some e →
    s.tables.entitlements.lookup id = some e
  eligibility : ∀ id el, el.revision ∈ s.used →
    s'.tables.eligibilities.lookup id = some el →
    s.tables.eligibilities.lookup id = some el

theorem State.Since.refl (s : State) : s.Since s :=
  ⟨Finset.Subset.refl _, List.Subset.refl _, fun _ _ _ h => h, fun _ _ _ h => h⟩

theorem State.Since.trans {s'' : State} (h : s.Since s') (h' : s'.Since s'') :
    s.Since s'' where
  used := Finset.Subset.trans h.used h'.used
  log := List.Subset.trans h.log h'.log
  entitlement id e hkn he :=
    h.entitlement id e hkn (h'.entitlement id e (h.used hkn) he)
  eligibility id el hkn hel :=
    h.eligibility id el hkn (h'.eligibility id el (h.used hkn) hel)

theorem since_of_path
    (h : (system parseUrl ladderRevision).Path s events s') (hs : Sound s) : s.Since s' := by
  induction h with
  | nil s => exact .refl s
  | @cons s s₁ _ e _ hst _ ih =>
    have hfst : s.Since s₁ := by
      rcases effect_of_apply hs.sortedEligibilities hst with ⟨_, rfl⟩ |
        ⟨_, _, _, hadmits, heff, rfl⟩
      · exact ⟨Finset.Subset.refl _, List.Subset.refl _, fun _ _ _ h => h, fun _ _ _ h => h⟩
      · have hids := (admits_iff.1 hadmits).2.2.2
        have hed := edited_of_effect heff
        exact ⟨subset_commit, List.subset_append_left _ _,
          fun _ _ hkn he => hed.1.known hids he hkn,
          fun _ _ hkn hel => hed.2.known hids hel hkn⟩
    exact hfst.trans (ih (hs.apply hst))

/-- The rows of a request that are still current were so in every state since it was made. -/
theorem Sound.unchanged (hs : Sound s) (hs' : Sound s') (hsnc : s.Since s')
    (hid : (lookup s.tables.requests id).isSome) {e : Entitlement}
    (hr : lookup s'.tables.requests id = some r)
    (he : lookup s'.tables.entitlements r.entitlementId = some e)
    (hel : lookup s'.tables.eligibilities r.eligibilityId = some el)
    (hpol : e.revision = r.policyRevision) (helig : el.revision = r.eligibilityRevision) :
    lookup s.tables.entitlements r.entitlementId = some e ∧
    lookup s.tables.eligibilities r.eligibilityId = some el := by
  obtain ⟨e₀, el₀, hmem⟩ := hs.requests id hid
  obtain ⟨_, _, hkn⟩ := hs.submitted id e₀ el₀ hmem
  obtain ⟨_, hr', hsb⟩ := hs'.submitted id e₀ el₀ (hsnc.log hmem)
  cases hr.symm.trans hr'
  refine ⟨hsnc.entitlement _ e ?_ he, hsnc.eligibility _ el ?_ hel⟩
  · rw [hpol, hsb.against.policyRevision]
    exact hkn.known.1
  · rw [helig, hsb.against.eligibilityRevision]
    exact hkn.known.2

/-! ### What is resolved -/

section Resolution

variable {tables : Tables} {catalogue : Catalogue} {now : ℤ} {row : ResolvedRow}

theorem liveRow_eq_some {entry : String × Activation}
    (h : tables.liveRow catalogue now entry = some row) :
    entry = (row.activationId, row.activation) ∧
    tables.Live now row.activation row.request row.entitlement row.eligibility := by
  unfold liveRow at h
  split at h
  · cases h
  · next r hr =>
    split at h
    · next e el he hel =>
      split_ifs at h with hlv
      obtain ⟨-, -, hpol, helig, -, hrev, -, -, hunr, had, hun, -, -⟩ := hlv
      cases h
      exact ⟨rfl, hr, he, hel, hpol, helig, hrev, hunr, had, hun⟩
    · cases h

theorem mem_resolvedRows {user client resource : String} {permissions : Finset String}
    (hso : Sorted tables.activations)
    (h : row ∈ tables.resolvedRows catalogue user client resource permissions now) :
    lookup tables.activations row.activationId = some row.activation ∧
    row.activation.userId = user ∧
    tables.Live now row.activation row.request row.entitlement row.eligibility := by
  have hmem := List.mem_mergeSort.1 (List.mem_of_mem_take h)
  obtain ⟨hrow, hask⟩ := List.mem_filter.1 hmem
  obtain ⟨_, hent, hjo⟩ := List.mem_filterMap.1 hrow
  obtain ⟨rfl, hlv⟩ := liveRow_eq_some hjo
  simp only [Bool.and_eq_true, decide_eq_true_eq] at hask
  exact ⟨hso.lookup_of_mem hent, hask.1.1.1, hlv⟩

/-- Only a grant that is not delegated carries roles, and each is that of a row of the query. -/
theorem resolve_ok {tenant : String} {grant : RoleGrant} {roles : List ActiveTemporaryRole}
    {role : ActiveTemporaryRole}
    (h : tables.resolve catalogue ladderRevision tenant grant now = .ok roles)
    (hrl : role ∈ roles) :
    (grant.actorChain = [] ∧ grant.task = none ∧ grant.parent = none) ∧
      ∃ user resource, grant.user = some user ∧ grant.resources = {resource} ∧
      ∃ row ∈ tables.resolvedRows catalogue user grant.client resource grant.scopes now,
        resourcePermissionsExact row.entitlement.configuration.permissions grant.scopes = true ∧
        role.activationId = row.activationId ∧
        role.entitlementId = row.request.entitlementId ∧
        role.expiresAt = row.activation.expiresAt := by
  -- every early return of the resolver leaves the grant without roles
  have hno : (.ok [] : Except DomainError (List ActiveTemporaryRole)) ≠ .ok roles := by
    rintro heq
    cases heq
    exact List.not_mem_nil hrl
  unfold Tables.resolve at h
  split_ifs at h with hgr
  · exact absurd h hno
  push Not at hgr
  obtain ⟨-, hca, hchn, htk, hup, -⟩ := hgr
  obtain ⟨resource, hres⟩ := Finset.card_eq_one.1 hca
  rw [hres, Finset.sort_singleton] at h
  split at h
  · next user authentication hu _ =>
    split at h
    · exact absurd h hno
    · split_ifs at h
      · exact absurd h hno
      · exact absurd h hno
      · obtain ⟨row, hrow, hma⟩ := exists_of_mem_mapM h hrl
        obtain ⟨hmem, hexa⟩ := List.mem_filter.1 hrow
        simp only [bind_ok, pure_ok] at hma
        obtain ⟨_, -, rfl⟩ := hma
        exact ⟨⟨hchn, by simpa using htk, by simpa using hup⟩, user, resource, hu,
          hres, row, hmem, (Bool.and_eq_true_iff.1 hexa).1, rfl, rfl, rfl⟩
      · exact absurd h hno
  · exact absurd h hno

end Resolution

/-- A role that a grant carries at a moment, with what it stems from.  The entitlement and the
eligibility are those of the request, in every state of the history since. -/
def State.Stems (s : State) (parseUrl : UrlParser) (ladderRevision : AcrPolicy → String)
    (s₀ : State) (grant : RoleGrant) (now : ℤ) (role : ActiveTemporaryRole) : Prop :=
  ∃ a r e el approver at_,
    s.tables.activations.lookup role.activationId = some a ∧
    s.tables.Live now a r e el ∧
    role.entitlementId = r.entitlementId ∧ grant.user = some r.requesterUserId ∧
    -- approved, by someone independent
    r.status = .approved ∧ r.decidedBy = some approver ∧ Independent approver r e el ∧
    .approved a.requestId role.activationId approver at_ e el ∈ s.log ∧
    -- unchanged since the request
    .submitted a.requestId e el ∈ s.log ∧
    (∀ s₁ events₁ events₂, (system parseUrl ladderRevision).Path s₀ events₁ s₁ →
      (system parseUrl ladderRevision).Path s₁ events₂ s →
      (s₁.tables.requests.lookup a.requestId).isSome →
      s₁.tables.entitlements.lookup r.entitlementId = some e ∧
      s₁.tables.eligibilities.lookup r.eligibilityId = some el) ∧
    -- in time
    now < role.expiresAt ∧ role.expiresAt ≤ at_ + seconds r.durationSeconds ∧
    role.expiresAt ≤ el.expiresAt ∧
    -- with the permissions that were approved
    grant.scopes.filter (isResourcePermission ·) = r.permissions.toFinset

/-- **Temporary roles.**  In every history, a role that is resolved for a grant stems from a request
that an independent approver approved, against rows that did not change since.  The grant is not
delegated, and no user has two live activations for one entitlement. -/
theorem resolved_role {catalogue : Catalogue} {clock : ℤ} {events : List Event} {s : State}
    (h : (system parseUrl ladderRevision).Path (State.init catalogue clock) events s)
    {tenant : String} {grant : RoleGrant} {now : ℤ} {roles : List ActiveTemporaryRole}
    (hroles : s.tables.resolve s.catalogue ladderRevision tenant grant now = .ok roles) :
    (∀ role ∈ roles,
      s.Stems parseUrl ladderRevision (State.init catalogue clock) grant now role ∧
      grant.actorChain = [] ∧ grant.task = none ∧ grant.parent = none) ∧ s.Unique := by
  obtain ⟨hs, huq⟩ := sound_of_path h
  refine ⟨fun role hrl => ?_, huq⟩
  obtain ⟨hund, user, _, hu, -, row, hrow, hexa, hid, hel, hexp⟩ :=
    resolve_ok hroles hrl
  obtain ⟨ha, had, hlv⟩ := mem_resolvedRows hs.sortedActivations hrow
  obtain ⟨approver, at_, e, el, _, _, hsb, hr, hst, hby, hind, hof⟩ :=
    hs.activations _ _ ha
  cases hr.symm.trans hlv.request
  obtain ⟨_, hr', hrs⟩ := hs.submitted _ e el hsb
  cases hr.symm.trans hr'
  -- the revisions still agree, so the rows of the history are the rows of the query
  obtain rfl := hrs.entitlement _ hlv.entitlement
    (hlv.policyRevision.trans hrs.against.policyRevision)
  obtain rfl := hrs.eligibility _ hlv.eligibility
    (hlv.eligibilityRevision.trans hrs.against.eligibilityRevision)
  have hreq : user = row.request.requesterUserId := had.symm.trans hof.user
  have hpm := hexa
  simp only [resourcePermissionsExact, Bool.and_eq_true, decide_eq_true_eq] at hpm
  refine ⟨⟨row.activation, row.request, row.entitlement, row.eligibility, approver, at_, ?_, hlv,
    hel, hreq ▸ hu, hst, hby, hind, ?_, hsb, ?_, ?_, ?_, ?_,
    ?_⟩, hund⟩
  · rw [hid, ha]
  · rwa [hid]
  · intro _ _ _ hbef haft hre
    have hs₁ := (sound_of_path hbef).1
    exact hs₁.unchanged hs (since_of_path haft hs₁) hre hlv.request hlv.entitlement
      hlv.eligibility hlv.policyRevision hlv.eligibilityRevision
  · exact hexp ▸ hlv.unexpired
  · exact hexp ▸ hof.duration
  · exact hexp ▸ hof.eligibility
  · rw [hrs.against.permissions, ← hpm.2]

/-- A tenant with one resource, where everyone is signed in with a passkey. -/
def openCatalogue : Catalogue where
  userActive _ := true
  clientOpen _ := true
  hasRole _ _ := true
  resourceScopes _ := some none
  acr := ⟨[⟨"mfa", [.passkey]⟩], false⟩
  session _ _ := some ⟨some 0, some "ladder", some [some .passkey]⟩

/-- An operator's role for at most ten minutes, which `bob` may approve. -/
def operatorRole : EntitlementConfiguration :=
  { ownerUserId := "olga", clientId := "console", resource := "https://api.example"
    roleName := "operator", permissions := ["deploy"], approverUserIds := ["bob"]
    requesterAcr := "mfa", approverAcr := "mfa", maxDurationSeconds := 600
    maxEligibilitySeconds := 3600, enabled := true }

/-- `olga` configures the role and makes `ann` eligible; `ann` requests it and `bob` approves. -/
def approvedRun : List Event :=
  [.run (.configure "olga" none none operatorRole) ⟨0, 0, "e", "e1"⟩,
   .run (.setEligibility "olga" "e" ⟨"ann", 0, 3600, none⟩) ⟨0, 0, "l", "l1"⟩,
   .run (.submit ⟨"ann", "s"⟩ ⟨"e", 300, "deploy the fix"⟩) ⟨0, 0, "r", "r1"⟩,
   .run (.decide ⟨"bob", "s"⟩ ⟨"r", true⟩) ⟨1, 1, "a", "a1"⟩]

/-- Ann at the console. -/
def annsGrant : RoleGrant :=
  { id := "g", client := "console", user := some "ann", subject := none
    scopes := {"openid", "deploy"}, authorizationDetails := []
    resources := {"https://api.example"}, actorChain := [], parent := none
    parentRevision := none, task := none, session := none, createdAt := 0
    authorityRevision := "g1", expiresAt := none, claimedAt := some 0, revokedAt := none
    revocationReason := none, tenant := "t"
    authentication := some ⟨some "mfa", ⟨some 0, some "ladder", [.passkey]⟩⟩ }

/-- Everything is the API. -/
def exampleUrl (_ : String) : Option Url :=
  some { scheme := "https", username := "", password := none, host := some "api.example"
         port := none, path := "/", query := none, fragment := none }

/-- The grant of `ann` carries the role once `bob` has approved it. -/
theorem resolved_role_approved : ∃ s roles,
    (system exampleUrl fun _ => "ladder").Path (State.init openCatalogue 0) approvedRun s ∧
    s.tables.resolve s.catalogue (fun _ => "ladder") "t" annsGrant 2 = .ok roles ∧
    roles.map (·.activationId) = ["a"] ∧
    ∀ role ∈ roles, s.Stems exampleUrl (fun _ => "ladder") (State.init openCatalogue 0) annsGrant 2
      role := by
  have hrun : ((approvedRun.foldlM (State.apply exampleUrl fun _ => "ladder")
      (State.init openCatalogue 0)).any fun s =>
        (s.tables.resolve s.catalogue (fun _ => "ladder") "t" annsGrant 2).toOption.any
          fun roles => roles.map (·.activationId) = ["a"]) = true := by decide +kernel
  obtain ⟨s, hs, hrsv⟩ := (Option.any_eq_true _ _).1 hrun
  obtain ⟨roles, hrol, hids⟩ := (Option.any_eq_true _ _).1 hrsv
  have hp : (system exampleUrl fun _ => "ladder").Path (State.init openCatalogue 0)
      approvedRun s := .of_foldlM hs
  have hok : s.tables.resolve s.catalogue (fun _ => "ladder") "t" annsGrant 2 = .ok roles := by
    cases hcs : s.tables.resolve s.catalogue (fun _ => "ladder") "t" annsGrant 2 with
    | error => simp [hcs, Except.toOption] at hrol
    | ok => simpa [hcs, Except.toOption] using hrol
  exact ⟨s, roles, hp, hok, of_decide_eq_true hids,
    fun role hrl => ((resolved_role hp hok).1 role hrl).1⟩

end AsteriusIdp.Entitlements
