import AsteriusIdp.Keys.Lifecycle

/-!
# One key after the other

What every sequence of passes, activations, retirements and purges keeps of a tenant's keys.

* `Sound` : an algorithm has at most one active and one pending key, and an active one as soon as
  it has any; the timestamps say what the key has been.
* `change_apply` : what an operation can do to a key.
* `succession_of_path` : the guarantees over a whole history.
-/

namespace AsteriusIdp.Keys

namespace Lifecycle

open Fallible Transition Entries

variable {s s' : State} {kid : String} {alg : SigningAlgorithm} {now : ℤ}
  {generated : Except DomainError NewKey} {m : Entries String KeyRow}

/-! ### The statements -/

variable {state : KeyState} {row : KeyRow} {r : KeyRotation} {chosen : Bool} {e : Event}
  {events : List Event}

theorem is_iff : row.is alg state = true ↔
    row.purpose = .signing ∧ row.algorithm = alg ∧ row.state = state := by
  simp [KeyRow.is, and_assoc]

variable {cutoff : ℤ}

theorem lapsed_iff : State.lapsed cutoff row = true ↔
    row.purpose = .signing ∧ row.state = .retiring ∧ ∃ t ∈ row.retiringAt, t ≤ cutoff := by
  simp [State.lapsed, and_assoc, Option.any_eq_true]

theorem signingKey_eq_some : s.signingKey kid = some row ↔
    s.keys.lookup kid = some row ∧ row.purpose = .signing := by
  simp [State.signingKey]

theorem find_eq_none : s.find alg state = none ↔ ∀ e ∈ s.keys, e.2.is alg state = false := by
  simp [State.find]

theorem find_eq_some (h : s.find alg state = some kid) :
    ∃ row, (kid, row) ∈ s.keys ∧ row.is alg state = true := by
  obtain ⟨e, he, rfl⟩ := Option.map_eq_some_iff.1 h
  exact ⟨e.2, List.mem_of_find?_eq_some he, by simpa using List.find?_some he⟩

theorem ready_eq_some (h : s.ready alg cutoff = some kid) :
    ∃ row, (kid, row) ∈ s.keys ∧ row.is alg .pending = true ∧ row.createdAt ≤ cutoff := by
  obtain ⟨e, he, rfl⟩ := Option.map_eq_some_iff.1 h
  exact ⟨e.2, List.mem_of_find?_eq_some he, by simpa using List.find?_some he⟩

/-- With a new key. -/
def State.withKey (s : State) (algorithm : SigningAlgorithm) (now : ℤ) (key : NewKey) : State :=
  let row := key.row algorithm now (s.find algorithm .active).isNone
  { s with keys := s.keys.insert key.kid row }

theorem stage_ok {created : String} :
    s.stage alg now generated = .ok (created, s') ↔
      s.find alg .pending = some created ∧ s = s' ∨
      s.find alg .pending = none ∧ ∃ key, generated = .ok key ∧
      s.keys.lookup key.kid = none ∧ key.kid = created ∧ s.withKey alg now key = s' := by
  unfold State.stage
  cases s.find alg .pending with
  | some => simp
  | none =>
    simp [State.withKey]

/-- A pass after its sweep. -/
def State.swept (s : State) (algorithm : SigningAlgorithm) (now : ℤ) : State :=
  let schedule := s.ensureSchedule algorithm
  ((s.withSchedule algorithm schedule).sweep (now - schedule.val.gracePeriod) now).2

/-- A pass before it stages a key. -/
def State.matured (s : State) (algorithm : SigningAlgorithm) (now : ℤ) : State :=
  let cutoff := now - (s.ensureSchedule algorithm).val.propagationPeriod
  ((s.swept algorithm now).ready algorithm cutoff).elim (s.swept algorithm now)
    fun kid => (s.swept algorithm now).promote algorithm kid now

variable {forced : Bool}

/-- A pass that succeeds stages nothing, or one new key. -/
theorem keys_run (h : s.run alg now forced generated = .ok (r, s')) :
    s'.keys = (s.matured alg now).keys ∨
    (s.matured alg now).find alg .pending = none ∧ ∃ key, generated = .ok key ∧
      (s.matured alg now).keys.lookup key.kid = none ∧
      s'.keys = ((s.matured alg now).withKey alg now key).keys := by
  unfold State.run at h
  simp only at h
  split_ifs at h with hdue
  · simp only [bind_ok, Prod.exists, pure_ok] at h
    obtain ⟨_, _, hsg, -, rfl⟩ := h
    rcases stage_ok.1 hsg with ⟨-, rfl⟩ | ⟨hno, key, hkey, hfr, -, rfl⟩
    · exact .inl rfl
    · exact .inr ⟨hno, key, hkey, hfr, rfl⟩
  · obtain ⟨-, rfl⟩ := Prod.mk.inj (pure_ok.1 h)
    exact .inl rfl

/-! ### Keys that follow each other -/

/-- The columns of a row that go together. -/
structure KeyRow.Stamped (row : KeyRow) : Prop where
  signing : row.purpose = .signing
  jwk_use : row.publicJwk.member "use" = some (.str "sig")
  pending : row.state = .pending → row.activatedAt = none
  active : row.state = .active → row.activatedAt.isSome
  stopped : row.state ≠ .active → row.activatedAt.isSome → row.retiringAt.isSome

/-- At most one active and one pending key of an algorithm, and an active one if there is any. -/
structure Sound (m : Entries String KeyRow) : Prop where
  sorted : m.Sorted
  stamped : ∀ kid row, m.lookup kid = some row → row.Stamped
  active : ∀ kid kid' row row', m.lookup kid = some row → m.lookup kid' = some row' →
    row.algorithm = row'.algorithm → row.state = .active → row'.state = .active → kid = kid'
  pending : ∀ kid kid' row row', m.lookup kid = some row → m.lookup kid' = some row' →
    row.algorithm = row'.algorithm → row.state = .pending → row'.state = .pending → kid = kid'
  covered : ∀ kid row, m.lookup kid = some row → ∃ kid' row', m.lookup kid' = some row' ∧
    row'.algorithm = row.algorithm ∧ row'.state = .active

theorem sound_nil : Sound [] where
  sorted := .nil
  stamped _ _ h := nomatch h
  active _ _ _ _ h := nomatch h
  pending _ _ _ _ h := nomatch h
  covered _ _ h := nomatch h

theorem Sound.state_ne (hm : Sound s.keys) (hno : s.find alg state = none)
    (hrow : s.keys.lookup kid = some row) (halg : row.algorithm = alg) : row.state ≠ state := by
  intro hst
  have his := find_eq_none.1 hno _ (mem_of_lookup hrow)
  rw [is_iff.2 ⟨(hm.stamped kid row hrow).signing, halg, hst⟩] at his
  nomatch his

variable {f : KeyRow → KeyRow}

/-- Keys that do not sign leave the published set. -/
theorem Sound.withdraw (hm : Sound m) {p : String → KeyRow → Bool}
    (hp : ∀ kid row, m.lookup kid = some row → p kid row = true → row.state ≠ .active)
    (hf : ∀ row, (f row).algorithm = row.algorithm ∧ (f row).state ≠ .active ∧
      (f row).state ≠ .pending)
    (hstp : ∀ kid row, m.lookup kid = some row → p kid row = true → (f row).Stamped) :
    Sound (m.updateWhere p f) := by
  -- a row of the new table, and the one it was
  have hrow : ∀ kid row', (m.updateWhere p f).lookup kid = some row' →
      ∃ row, m.lookup kid = some row ∧ row'.algorithm = row.algorithm ∧
      (row' = row ∨ p kid row = true ∧ row' = f row) := by
    intro kid row' h
    rw [lookup_updateWhere, Option.map_eq_some_iff] at h
    obtain ⟨row, hlk, rfl⟩ := h
    refine ⟨row, hlk, ?_⟩
    split_ifs with hpk
    · exact ⟨(hf row).1, .inr ⟨hpk, rfl⟩⟩
    · exact ⟨rfl, .inl rfl⟩
  have hkp : ∀ kid row', (m.updateWhere p f).lookup kid = some row' →
      row'.state = .active ∨ row'.state = .pending → m.lookup kid = some row' := by
    intro kid row' h hst
    obtain ⟨row, hlk, -, rfl | ⟨-, rfl⟩⟩ := hrow kid row' h
    · exact hlk
    · exact absurd hst (not_or.2 (hf row).2)
  refine ⟨hm.sorted.updateWhere _ _, ?_, ?_, ?_, ?_⟩
  · intro kid row' h
    obtain ⟨row, hlk, -, rfl | ⟨hpk, rfl⟩⟩ := hrow kid row' h
    · exact hm.stamped kid _ hlk
    · exact hstp kid row hlk hpk
  · intro kid kid' row row' h h' halg hst hst'
    exact hm.active kid kid' row row' (hkp _ _ h (.inl hst)) (hkp _ _ h' (.inl hst'))
      halg hst hst'
  · intro kid kid' row row' h h' halg hst hst'
    exact hm.pending kid kid' row row' (hkp _ _ h (.inr hst)) (hkp _ _ h' (.inr hst'))
      halg hst hst'
  · intro kid row' h
    obtain ⟨row, hlk, halg, -⟩ := hrow kid row' h
    obtain ⟨kid₁, row₁, hlk₁, halg₁, hst₁⟩ := hm.covered kid row hlk
    refine ⟨kid₁, row₁, ?_, halg₁.trans halg.symm, hst₁⟩
    rw [lookup_updateWhere, hlk₁, Option.map_some, if_neg fun hpk => hp kid₁ row₁ hlk₁ hpk hst₁]

theorem Stamped.retire (h : row.Stamped) (hst : row.state ≠ .active) : (row.retire now).Stamped :=
  ⟨h.signing, h.jwk_use, nofun, nofun, fun _ => h.stopped hst⟩

theorem Stamped.purge (h : row.Stamped) (hst : row.state ≠ .active) : (row.purge now).Stamped :=
  ⟨h.signing, h.jwk_use, nofun, nofun, fun _ => h.stopped hst⟩

theorem Sound.sweep (hm : Sound s.keys) (cutoff now : ℤ) : Sound (s.sweep cutoff now).2.keys := by
  have hst : ∀ row, State.lapsed cutoff row = true → row.state ≠ .active := by
    intro row hlap hact
    have hret := (lapsed_iff.1 hlap).2.1
    rw [hact] at hret
    nomatch hret
  simp only [State.sweep]
  refine hm.withdraw (fun _ row _ => hst row) (fun row => ⟨rfl, nofun, nofun⟩) ?_
  intro kid row hrow hlap
  exact Stamped.retire (hm.stamped kid row hrow) (hst row hlap)

/-- What a promotion makes of a row. -/
def KeyRow.promoted (row : KeyRow) (algorithm : SigningAlgorithm) (now : ℤ) (chosen : Bool) :
    KeyRow :=
  if chosen then row.activate now
  else if row.is algorithm .active then row.supersede now else row

/-- The promoted key is pending, so that it is not the one that is superseded. -/
theorem lookup_promote (kid' : String) (hrow : s.keys.lookup kid = some row)
    (hpd : row.is alg .pending = true) :
    (s.promote alg kid now).keys.lookup kid' =
      (s.keys.lookup kid').map fun r => r.promoted alg now (kid' = kid) := by
  simp only [State.promote, lookup_updateWhere, Option.map_map]
  refine Option.map_congr fun r hr => ?_
  simp only [Function.comp, KeyRow.promoted, decide_eq_true_eq]
  split_ifs with hkid hact
  · cases (hkid ▸ hr).symm.trans hrow
    rw [is_iff] at hpd hact
    rw [hact.2.2] at hpd
    nomatch hpd.2.2
  · rfl
  · rfl
  · rfl

theorem algorithm_promoted (row : KeyRow) (chosen : Bool) :
    (row.promoted alg now chosen).algorithm = row.algorithm := by
  unfold KeyRow.promoted
  split_ifs <;> rfl

/-- After a promotion a key is active if it was chosen, or signs for another algorithm. -/
theorem active_promoted (hsgn : row.purpose = .signing)
    (h : (row.promoted alg now chosen).state = .active) :
    chosen = true ∨ row.state = .active ∧ row.algorithm ≠ alg := by
  unfold KeyRow.promoted at h
  split_ifs at h with hch hact
  · exact .inl hch
  · nomatch h
  · exact .inr ⟨h, fun halg => hact (is_iff.2 ⟨hsgn, halg, h⟩)⟩

theorem pending_promoted (h : (row.promoted alg now chosen).state = .pending) :
    row.state = .pending ∧ chosen = false := by
  unfold KeyRow.promoted at h
  split_ifs at h with hch hact
  · nomatch h
  · nomatch h
  · exact ⟨h, Bool.eq_false_of_not_eq_true hch⟩

theorem Stamped.promoted (h : row.Stamped) : (row.promoted alg now chosen).Stamped := by
  unfold KeyRow.promoted
  split_ifs with hch hact
  · exact ⟨h.signing, h.jwk_use, nofun, fun _ => rfl, fun hne => absurd rfl hne⟩
  · exact ⟨h.signing, h.jwk_use, nofun, nofun, fun _ _ => rfl⟩
  · exact h

theorem Sound.promote (hm : Sound s.keys) (hrow : s.keys.lookup kid = some row)
    (hpd : row.is alg .pending = true) : Sound (s.promote alg kid now).keys := by
  -- a row of the new table, and the one it was
  have hbk : ∀ k r', (s.promote alg kid now).keys.lookup k = some r' →
      ∃ r, s.keys.lookup k = some r ∧ r' = r.promoted alg now (k = kid) := by
    intro k r' h
    rw [lookup_promote k hrow hpd, Option.map_eq_some_iff] at h
    obtain ⟨r, hr, rfl⟩ := h
    exact ⟨r, hr, rfl⟩
  have halg : row.algorithm = alg := (is_iff.1 hpd).2.1
  have hso : (s.promote alg kid now).keys.Sorted := by
    simp only [State.promote]
    exact (hm.sorted.updateWhere _ _).updateWhere _ _
  refine ⟨hso, ?_, ?_, ?_, ?_⟩
  · intro k r' h
    obtain ⟨r, hr, rfl⟩ := hbk k r' h
    exact Stamped.promoted (hm.stamped k r hr)
  · intro k k' r r' h h' hsm hst hst'
    obtain ⟨r₁, hr₁, rfl⟩ := hbk k r h
    obtain ⟨r₁', hr₁', rfl⟩ := hbk k' r' h'
    rw [algorithm_promoted, algorithm_promoted] at hsm
    have hcas := active_promoted (hm.stamped k r₁ hr₁).signing hst
    have hcas' := active_promoted (hm.stamped k' r₁' hr₁').signing hst'
    rcases hcas with hk | ⟨hact, hne⟩ <;> rcases hcas' with hk' | ⟨hact', hne'⟩
    · exact (of_decide_eq_true hk).trans (of_decide_eq_true hk').symm
    · obtain rfl := of_decide_eq_true hk
      cases hrow.symm.trans hr₁
      exact absurd (hsm.symm.trans halg) hne'
    · obtain rfl := of_decide_eq_true hk'
      cases hrow.symm.trans hr₁'
      exact absurd (hsm.trans halg) hne
    · exact hm.active k k' r₁ r₁' hr₁ hr₁' hsm hact hact'
  · intro k k' r r' h h' hsm hst hst'
    obtain ⟨r₁, hr₁, rfl⟩ := hbk k r h
    obtain ⟨r₁', hr₁', rfl⟩ := hbk k' r' h'
    rw [algorithm_promoted, algorithm_promoted] at hsm
    exact hm.pending k k' r₁ r₁' hr₁ hr₁' hsm (pending_promoted hst).1
      (pending_promoted hst').1
  · intro k r' h
    obtain ⟨r, hr, rfl⟩ := hbk k r' h
    rw [algorithm_promoted]
    by_cases hsm : r.algorithm = alg
    · refine ⟨kid, row.promoted alg now true, ?_, ?_, rfl⟩
      · rw [lookup_promote kid hrow hpd, hrow, Option.map_some, decide_eq_true rfl]
      · rw [algorithm_promoted, halg, hsm]
    · obtain ⟨k₁, r₁, hr₁, halg₁, hact₁⟩ := hm.covered k r hr
      -- the active key of another algorithm is neither promoted nor superseded
      have hkp : r₁.promoted alg now (k₁ = kid) = r₁ := by
        have hk₁ : k₁ ≠ kid := by
          rintro rfl
          cases hrow.symm.trans hr₁
          exact hsm (halg₁.symm.trans halg)
        have hoth : ¬ r₁.is alg .active = true := fun his =>
          hsm (halg₁.symm.trans (is_iff.1 his).2.1)
        simp [KeyRow.promoted, if_neg hk₁, if_neg hoth]
      refine ⟨k₁, r₁, ?_, halg₁, hact₁⟩
      rw [lookup_promote k₁ hrow hpd, hr₁, Option.map_some, hkp]

theorem stamped_row (key : NewKey) (first : Bool) : (key.row alg now first).Stamped := by
  have hjwk : (Json.obj (key.jwk.insert "kid" (.str key.kid))).member "use" =
      some (.str "sig") := by
    rw [Json.member_obj, lookup_insert_of_ne _ _ (by decide), key.use_eq]
  cases first with
  | true => exact ⟨rfl, hjwk, nofun, fun _ => rfl, fun hne => absurd rfl hne⟩
  | false => exact ⟨rfl, hjwk, fun _ => rfl, nofun, nofun⟩

theorem Sound.withKey (hm : Sound s.keys) {key : NewKey} (hfr : s.keys.lookup key.kid = none)
    (hno : s.find alg .pending = none) : Sound (s.withKey alg now key).keys := by
  -- the new key, or an old one
  have hbk : ∀ k r, (s.withKey alg now key).keys.lookup k = some r →
      k = key.kid ∧ r = key.row alg now (s.find alg .active).isNone ∨
      k ≠ key.kid ∧ s.keys.lookup k = some r := by
    intro k r h
    simp only [State.withKey, lookup_insert] at h
    split_ifs at h with hk
    · exact .inl ⟨hk, (Option.some.inj h).symm⟩
    · exact .inr ⟨hk, h⟩
  -- the new key is active only if there is no other
  have hfst : ∀ k r, s.keys.lookup k = some r → r.algorithm = alg → r.state = .active →
      (key.row alg now (s.find alg .active).isNone).state ≠ .active := by
    intro k r hr halg hst
    have hso : (s.find alg .active).isNone = false := by
      refine Bool.eq_false_of_not_eq_true fun hno => ?_
      exact hm.state_ne (Option.isNone_iff_eq_none.1 hno) hr halg hst
    rw [hso]
    exact nofun
  have hkp : ∀ k r, s.keys.lookup k = some r →
      (s.withKey alg now key).keys.lookup k = some r := by
    intro k r hr
    have hk : k ≠ key.kid := fun hk => by simp [hk, hfr] at hr
    simpa [State.withKey, lookup_insert, if_neg hk] using hr
  have hnew : (s.withKey alg now key).keys.lookup key.kid =
      some (key.row alg now (s.find alg .active).isNone) :=
    lookup_insert_self _ _ _
  refine ⟨hm.sorted.insert _ _, ?_, ?_, ?_, ?_⟩
  · intro k r h
    rcases hbk k r h with ⟨-, rfl⟩ | ⟨-, hr⟩
    · exact stamped_row key _
    · exact hm.stamped k r hr
  · intro k k' r r' h h' hsm hst hst'
    rcases hbk k r h with ⟨rfl, rfl⟩ | ⟨-, hr⟩ <;>
      rcases hbk k' r' h' with ⟨rfl, rfl⟩ | ⟨-, hr'⟩
    · rfl
    · exact absurd hst (hfst k' r' hr' hsm.symm hst')
    · exact absurd hst' (hfst k r hr hsm hst)
    · exact hm.active k k' r r' hr hr' hsm hst hst'
  · intro k k' r r' h h' hsm hst hst'
    rcases hbk k r h with ⟨rfl, rfl⟩ | ⟨-, hr⟩ <;>
      rcases hbk k' r' h' with ⟨rfl, rfl⟩ | ⟨-, hr'⟩
    · rfl
    · exact absurd hst' (hm.state_ne hno hr' hsm.symm)
    · exact absurd hst (hm.state_ne hno hr hsm)
    · exact hm.pending k k' r r' hr hr' hsm hst hst'
  · intro k r h
    rcases hbk k r h with ⟨rfl, rfl⟩ | ⟨-, hr⟩
    · cases hact : s.find alg .active with
      | none =>
        refine ⟨key.kid, _, hnew, rfl, ?_⟩
        rw [hact]
        rfl
      | some k₁ =>
        obtain ⟨r₁, hr₁, his⟩ := find_eq_some hact
        exact ⟨k₁, r₁, hkp k₁ r₁ (hm.sorted.lookup_of_mem hr₁), (is_iff.1 his).2⟩
    · obtain ⟨k₁, r₁, hr₁, halg₁, hact₁⟩ := hm.covered k r hr
      exact ⟨k₁, r₁, hkp k₁ r₁ hr₁, halg₁, hact₁⟩

/-! ### What an operation does to a key -/

/-- What an operation can make of a key. -/
inductive Change (s : State) (kid : String) : Option KeyRow → Event → Option KeyRow → Prop
  | keep (row : Option KeyRow) (e : Event) : Change s kid row e row
  | sweep {row : KeyRow} {algorithm : SigningAlgorithm} {now t : ℤ} {forced : Bool}
      {generated : Except DomainError NewKey} :
    row.state = .retiring → row.retiringAt = some t →
    t ≤ now - (s.ensureSchedule algorithm).val.gracePeriod →
    Change s kid (some row) (.run algorithm now forced generated) (some (row.retire now))
  | supersede {row : KeyRow} {e : Event} {now : ℤ} : row.state = .active →
    Change s kid (some row) e (some (row.supersede now))
  | mature {row : KeyRow} {algorithm : SigningAlgorithm} {now : ℤ} {forced : Bool}
      {generated : Except DomainError NewKey} :
    row.state = .pending → row.algorithm = algorithm →
    row.createdAt ≤ now - (s.ensureSchedule algorithm).val.propagationPeriod →
    Change s kid (some row) (.run algorithm now forced generated) (some (row.activate now))
  | activate {row : KeyRow} {now : ℤ} : row.state = .pending →
    Change s kid (some row) (.activate kid now) (some (row.activate now))
  | create {algorithm : SigningAlgorithm} {now : ℤ} {forced first : Bool} {key : NewKey} :
    key.kid = kid →
    (first = true → ∀ k r, s.keys.lookup k = some r → r.algorithm ≠ algorithm) →
    Change s kid none (.run algorithm now forced (.ok key)) (some (key.row algorithm now first))
  | retire {row : KeyRow} {now : ℤ} : row.state = .pending ∨ row.state = .retiring →
    Change s kid (some row) (.retire kid now) (some (row.retire now))
  | purge {row : KeyRow} {now : ℤ} : row.state ≠ .active →
    Change s kid (some row) (.purge kid now) (some (row.purge now))

theorem lookup_swept (s : State) (alg : SigningAlgorithm) (now : ℤ) (k : String) :
    (s.swept alg now).keys.lookup k = (s.keys.lookup k).map fun row =>
      if State.lapsed (now - (s.ensureSchedule alg).val.gracePeriod) row then row.retire now
      else row := by
  simp [State.swept, State.sweep, State.withSchedule]

/-- A pass promotes no key, or one that has been pending long enough. -/
theorem matured_cases (s : State) (alg : SigningAlgorithm) (now : ℤ) :
    s.matured alg now = s.swept alg now ∨ ∃ kid row, (kid, row) ∈ (s.swept alg now).keys ∧
    row.is alg .pending = true ∧
    row.createdAt ≤ now - (s.ensureSchedule alg).val.propagationPeriod ∧
    s.matured alg now = (s.swept alg now).promote alg kid now := by
  cases hrea : (s.swept alg now).ready alg
      (now - (s.ensureSchedule alg).val.propagationPeriod) with
  | none => exact .inl (by simp [State.matured, hrea])
  | some kid =>
    obtain ⟨row, hrow, hpd, hold⟩ := ready_eq_some hrea
    refine .inr ⟨kid, row, hrow, hpd, hold, ?_⟩
    simp [State.matured, hrea]

theorem Sound.swept (hs : Sound s.keys) (alg : SigningAlgorithm) (now : ℤ) :
    Sound (s.swept alg now).keys := by
  have hsm : Sound (s.withSchedule alg (s.ensureSchedule alg)).keys := hs
  exact hsm.sweep _ now

theorem Sound.matured (hs : Sound s.keys) (alg : SigningAlgorithm) (now : ℤ) :
    Sound (s.matured alg now).keys := by
  rcases matured_cases s alg now with h | ⟨_, _, hrow, hpd, -, h⟩
  · rw [h]
    exact hs.swept alg now
  · rw [h]
    exact (hs.swept alg now).promote ((hs.swept alg now).sorted.lookup_of_mem hrow)
      hpd

/-- A key before it is staged: the sweep retires it, or the promotion reaches it, or neither. -/
theorem change_matured (hs : Sound s.keys) (forced : Bool) (k : String) :
    Change s k (s.keys.lookup k) (.run alg now forced generated)
      ((s.matured alg now).keys.lookup k) := by
  have hswp : Change s k (s.keys.lookup k) (.run alg now forced generated)
      ((s.swept alg now).keys.lookup k) := by
    rw [lookup_swept]
    cases hrow : s.keys.lookup k with
    | none => exact .keep _ _
    | some =>
      simp only [Option.map_some]
      split_ifs with hlap
      · obtain ⟨-, hret, _, ht, hle⟩ := lapsed_iff.1 hlap
        exact .sweep hret ht hle
      · exact .keep _ _
  rcases matured_cases s alg now with h | ⟨_, _, hrow, hpd, hold, h⟩
  · rw [h]
    exact hswp
  · have hlk := (hs.swept alg now).sorted.lookup_of_mem hrow
    rw [h, lookup_promote k hlk hpd]
    cases hk : (s.swept alg now).keys.lookup k with
    | none =>
      rw [hk] at hswp
      exact hswp
    | some r' =>
      rw [hk] at hswp
      -- a key that is pending or active after the sweep was so before it
      have hsm : r'.state ≠ .retired → s.keys.lookup k = some r' := by
        intro hst
        rw [lookup_swept, Option.map_eq_some_iff] at hk
        obtain ⟨_, hr, rfl⟩ := hk
        split_ifs at hst ⊢ with hlap
        · exact absurd rfl hst
        · exact hr
      simp only [Option.map_some, KeyRow.promoted, decide_eq_true_eq]
      split_ifs with hkid hact
      · subst hkid
        cases hk.symm.trans hlk
        obtain ⟨-, halg, hst⟩ := is_iff.1 hpd
        rw [hsm (by rw [hst]; exact nofun)]
        exact .mature hst halg hold
      · obtain ⟨-, -, hst⟩ := is_iff.1 hact
        rw [hsm (by rw [hst]; exact nofun)]
        exact .supersede hst
      · exact hswp

theorem Change.same {k : String} {row' : Option KeyRow} (h : Change s k (some row) e row') :
    ∃ r, row' = some r ∧ r.algorithm = row.algorithm := by
  cases h <;> exact ⟨_, rfl, rfl⟩

/-- An algorithm with a key has one that is active. -/
theorem Sound.find_active (hs : Sound s.keys) (hrow : s.keys.lookup kid = some row) :
    s.find row.algorithm .active ≠ none := by
  intro hno
  obtain ⟨_, _, hr, halg, hst⟩ := hs.covered kid row hrow
  exact hs.state_ne hno hr halg hst

theorem change_run (hs : Sound s.keys)
    (h : s.run alg now forced generated = .ok (r, s')) (k : String) :
    Change s k (s.keys.lookup k) (.run alg now forced generated) (s'.keys.lookup k) := by
  have hmat : ∀ k, Change s k (s.keys.lookup k) (.run alg now forced generated)
      ((s.matured alg now).keys.lookup k) := change_matured hs forced
  rcases keys_run h with hks | ⟨-, key, rfl, hfr, hks⟩
  · rw [hks]
    exact hmat k
  · rw [hks]
    simp only [State.withKey, lookup_insert]
    split_ifs with hk
    · subst hk
      have hno : s.keys.lookup key.kid = none := by
        by_contra hso
        obtain ⟨row, hrow⟩ := Option.ne_none_iff_exists'.1 hso
        have hchg := hmat key.kid
        rw [hrow, hfr] at hchg
        obtain ⟨_, habs, -⟩ := hchg.same
        nomatch habs
      rw [hno]
      refine .create rfl fun hfst k row hrow halg => ?_
      have hchg := hmat k
      rw [hrow] at hchg
      obtain ⟨_, hrow', halg'⟩ := hchg.same
      refine (hs.matured alg now).find_active hrow' ?_
      rw [halg', halg]
      exact Option.isNone_iff_eq_none.1 hfst
    · exact hmat k

/-- What an operation can leave. -/
inductive Applied (s : State) : Event → State → Prop
  | keep (e : Event) : Applied s e s
  | run {algorithm : SigningAlgorithm} {now : ℤ} {forced : Bool}
      {generated : Except DomainError NewKey} {r : KeyRotation} {s' : State} :
    s.run algorithm now forced generated = .ok (r, s') →
    Applied s (.run algorithm now forced generated) s'
  | activate {kid : String} {row : KeyRow} {now : ℤ} :
    s.keys.lookup kid = some row → row.is row.algorithm .pending = true →
    Applied s (.activate kid now) (s.promote row.algorithm kid now)
  | retire {kid : String} {row : KeyRow} {now : ℤ} :
    s.keys.lookup kid = some row → row.state = .pending ∨ row.state = .retiring →
    Applied s (.retire kid now)
      { s with keys := s.keys.updateWhere (fun k _ => k = kid) (·.retire now) }
  | purge {kid : String} {row : KeyRow} {now : ℤ} :
    s.keys.lookup kid = some row → row.state ≠ .active →
    Applied s (.purge kid now)
      { s with keys := s.keys.updateWhere (fun k _ => k = kid) (·.purge now) }
  | setSchedule {algorithm : SigningAlgorithm} {schedule : RotationSchedule} {s' : State} :
    s'.keys = s.keys → Applied s (.setSchedule algorithm schedule) s'

theorem applied_commit {α : Type} {result : Except DomainError (α × State)}
    (h : ∀ r s', result = .ok (r, s') → Applied s e s') : Applied s e (s.commit result) := by
  cases result with
  | ok r => exact h r.1 r.2 rfl
  | error => exact .keep e

theorem applied_activate (h : s.activate kid now = .ok (r, s')) :
    Applied s (.activate kid now) s' := by
  simp only [State.activate, bind_ok, okOr_ok, signingKey_eq_some] at h
  obtain ⟨row, ⟨hrow, hsgn⟩, h⟩ := h
  cases hst : row.state with
  | active =>
    simp only [hst, pure_ok, Prod.mk.injEq] at h
    exact h.2 ▸ .keep _
  | pending =>
    simp only [hst, pure_ok, Prod.mk.injEq] at h
    exact h.2 ▸ .activate hrow (is_iff.2 ⟨hsgn, rfl, hst⟩)
  | _ => simp [hst] at h

theorem applied_retire (h : s.retire kid now = .ok (r, s')) : Applied s (.retire kid now) s' := by
  simp only [State.retire, bind_ok, okOr_ok, signingKey_eq_some] at h
  obtain ⟨row, ⟨hrow, -⟩, h⟩ := h
  cases hst : row.state with
  | pending | retiring =>
    simp only [hst, pure_ok, Prod.mk.injEq] at h
    exact h.2 ▸ .retire hrow (by simp [hst])
  | active => simp [hst] at h
  | retired | purged =>
    simp only [hst, pure_ok, Prod.mk.injEq] at h
    exact h.2 ▸ .keep _

theorem applied_purge {r : KeyPurge} (h : s.purge kid now = .ok (r, s')) :
    Applied s (.purge kid now) s' := by
  simp only [State.purge, bind_ok, okOr_ok, signingKey_eq_some] at h
  obtain ⟨row, ⟨hrow, -⟩, h⟩ := h
  cases hst : row.state with
  | active => simp [hst] at h
  | purged =>
    simp only [hst, pure_ok, Prod.mk.injEq] at h
    exact h.2 ▸ .keep _
  | _ =>
    simp only [hst, pure_ok, Prod.mk.injEq] at h
    exact h.2 ▸ .purge hrow (by simp [hst])

theorem applied_apply (s : State) (e : Event) : Applied s e (s.apply e) := by
  cases e with
  | run => exact applied_commit fun _ _ => .run
  | activate => exact applied_commit fun _ _ => applied_activate
  | retire => exact applied_commit fun _ _ => applied_retire
  | purge => exact applied_commit fun _ _ => applied_purge
  | setSchedule alg schedule =>
    simp only [State.apply]
    cases h : s.setSchedule alg schedule with
    | error => exact .keep _
    | ok =>
      simp only [State.setSchedule, bind_ok] at h
      obtain ⟨_, -, _, -, _, -, h⟩ := h
      split_ifs at h
      rw [← pure_ok.1 h]
      exact .setSchedule rfl

theorem change_updateKey (hrow : s.keys.lookup kid = some row)
    (hchg : Change s kid (some row) e (some (f row))) (k : String) :
    Change s k (s.keys.lookup k) e
      (Entries.lookup (s.keys.updateWhere (fun k _ => k = kid) f) k) := by
  rw [lookup_updateWhere]
  cases hk : s.keys.lookup k with
  | none => exact .keep _ _
  | some =>
    simp only [decide_eq_true_eq]
    split_ifs with hkid
    · subst hkid
      cases hk.symm.trans hrow
      exact hchg
    · exact .keep _ _

theorem change_apply (hs : Sound s.keys) (e : Event) (k : String) :
    Change s k (s.keys.lookup k) e ((s.apply e).keys.lookup k) := by
  have hap := applied_apply s e
  generalize s.apply e = s' at hap ⊢
  cases hap with
  | keep => exact .keep _ _
  | run hrun => exact change_run hs hrun k
  | activate hrow hpd =>
    rw [lookup_promote k hrow hpd]
    cases hk : s.keys.lookup k with
    | none => exact .keep _ _
    | some =>
      simp only [Option.map_some, KeyRow.promoted, decide_eq_true_eq]
      split_ifs with hkid hact
      · subst hkid
        cases hk.symm.trans hrow
        exact .activate (is_iff.1 hpd).2.2
      · exact .supersede (is_iff.1 hact).2.2
      · exact .keep _ _
  | @retire _ _ now hrow hst =>
    exact change_updateKey (f := (·.retire now)) hrow (.retire hst) k
  | @purge _ _ now hrow hst => exact change_updateKey (f := (·.purge now)) hrow (.purge hst) k
  | setSchedule hks =>
    rw [hks]
    exact .keep _ _

/-- One key that does not sign leaves the published set. -/
theorem Sound.withdrawKey (hs : Sound s.keys) (hrow : s.keys.lookup kid = some row)
    (hst : row.state ≠ .active)
    (hf : ∀ row, (f row).algorithm = row.algorithm ∧
      (f row).state ≠ .active ∧ (f row).state ≠ .pending)
    (hstp : (f row).Stamped) : Sound (s.keys.updateWhere (fun k _ => k = kid) f) := by
  refine hs.withdraw ?_ hf ?_
  · intro k r hr hk
    obtain rfl := of_decide_eq_true hk
    cases hr.symm.trans hrow
    exact hst
  · intro _ _ hr hk
    obtain rfl := of_decide_eq_true hk
    cases hr.symm.trans hrow
    exact hstp

theorem Sound.apply (hs : Sound s.keys) (e : Event) : Sound (s.apply e).keys := by
  have hap := applied_apply s e
  generalize s.apply e = s' at hap ⊢
  cases hap with
  | keep => exact hs
  | run hrun =>
    rcases keys_run hrun with hks | ⟨hno, _, -, hfr, hks⟩
    · rw [hks]
      exact hs.matured _ _
    · rw [hks]
      exact (hs.matured _ _).withKey hfr hno
  | activate hrow hpd => exact hs.promote hrow hpd
  | @retire kid row now hrow hst =>
    have hne : row.state ≠ .active := by rcases hst with h | h <;> rw [h] <;> exact nofun
    exact hs.withdrawKey (f := (·.retire now)) hrow hne (fun _ => ⟨rfl, nofun, nofun⟩)
      (Stamped.retire (hs.stamped _ _ hrow) hne)
  | @purge kid row now hrow hne =>
    exact hs.withdrawKey (f := (·.purge now)) hrow hne (fun _ => ⟨rfl, nofun, nofun⟩)
      (Stamped.purge (hs.stamped _ _ hrow) hne)
  | setSchedule hks =>
    rw [hks]
    exact hs

/-! ### Whole histories -/

theorem sound_of_path (h : system.Path s events s') (hs : Sound s.keys) : Sound s'.keys := by
  refine h.invariant (I := fun s => Sound s.keys) ?_ hs
  intro _ e _ hst hs
  cases hst
  exact hs.apply e

/-- The key signs. -/
def State.Active (s : State) (kid : String) : Prop :=
  ∃ row, s.keys.lookup kid = some row ∧ row.state = .active

/-- The key has signed and does no more. -/
def State.Past (s : State) (kid : String) : Prop :=
  ∃ row, s.keys.lookup kid = some row ∧ row.state ≠ .active ∧ row.state ≠ .pending

section

variable (h : system.Path s events s') (hs : Sound s.keys)
include h hs

/-- A key stays in the table, with what every operation keeps of it. -/
theorem exists_of_path {P : KeyRow → Prop}
    (hP : ∀ s e row row', Change s kid (some row) e (some row') → P row → P row')
    (hrow : s.keys.lookup kid = some row) (hp : P row) :
    ∃ row', s'.keys.lookup kid = some row' ∧ P row' := by
  refine (h.invariant (I := fun s => Sound s.keys ∧ ∃ row', s.keys.lookup kid = some row' ∧ P row')
    ?_ ⟨hs, row, hrow, hp⟩).2
  rintro s e _ hst ⟨hs, row, hrow, hp⟩
  cases hst
  have hchg := change_apply hs e kid
  rw [hrow] at hchg
  obtain ⟨row', hrow', -⟩ := hchg.same
  rw [hrow'] at hchg
  exact ⟨hs.apply e, row', hrow', hP s e row row' hchg hp⟩

theorem kept_of_path (hrow : s.keys.lookup kid = some row) :
    ∃ row', s'.keys.lookup kid = some row' ∧ row'.algorithm = row.algorithm := by
  refine exists_of_path h hs (fun _ _ _ row' hchg halg => ?_) hrow rfl
  obtain ⟨_, hrow', halg'⟩ := hchg.same
  cases hrow'
  exact halg'.trans halg

/-- A key does not come back. -/
theorem past_of_path (hpa : s.Past kid) : s'.Past kid := by
  obtain ⟨row, hrow, hrs⟩ := hpa
  refine exists_of_path h hs (P := fun row => row.state ≠ .active ∧ row.state ≠ .pending) ?_ hrow
    hrs
  rintro _ _ _ _ hchg ⟨hact, hpd⟩
  cases hchg with
  | keep => exact ⟨hact, hpd⟩
  | supersede h => exact absurd h hact
  | mature h => exact absurd h hpd
  | activate h => exact absurd h hpd
  | _ => exact ⟨nofun, nofun⟩

/-- A key that signs has its stamp for ever. -/
theorem activatedAt_of_path (hact : s.Active kid) :
    ∃ row, s'.keys.lookup kid = some row ∧ row.activatedAt.isSome := by
  obtain ⟨row, hrow, hst⟩ := hact
  refine exists_of_path h hs (P := (·.activatedAt.isSome)) (fun _ _ _ _ hchg hstp => ?_) hrow
    ((hs.stamped kid row hrow).active hst)
  cases hchg with
  | mature | activate => rfl
  | _ => exact hstp

end

variable {row' : KeyRow}

/-- A key that an operation makes active is the first of its algorithm, has propagated, or is the
one that the operation activates. -/
theorem active_apply (hs : Sound s.keys) (hrow' : (s.apply e).keys.lookup kid = some row')
    (hact : row'.state = .active) (hbef : ¬ s.Active kid) :
    (∀ k r, s.keys.lookup k = some r → r.algorithm ≠ row'.algorithm) ∨
      (∃ now forced generated row, e = .run row'.algorithm now forced generated ∧
        s.keys.lookup kid = some row ∧
        row.createdAt + (s.ensureSchedule row'.algorithm).val.propagationPeriod ≤ now) ∨
      ∃ now, e = .activate kid now := by
  have hchg := change_apply hs e kid
  rw [hrow'] at hchg
  generalize hrow : s.keys.lookup kid = row at hchg
  cases hchg with
  | keep => exact absurd ⟨row', hrow, hact⟩ hbef
  | sweep => nomatch hact
  | supersede => nomatch hact
  | @mature row alg now forced generated hpd halg hold =>
    subst halg
    refine .inr (.inl ⟨now, forced, generated, row, rfl, rfl, ?_⟩)
    show row.createdAt + (s.ensureSchedule row.algorithm).val.propagationPeriod ≤ now
    omega
  | @activate row now hpd => exact .inr (.inr ⟨now, rfl⟩)
  | @create alg now forced first key hkid hfst =>
    cases first with
    | true => exact .inl (hfst rfl)
    | false => nomatch hact
  | retire => nomatch hact
  | purge => nomatch hact

/-- A key that loses its material does not sign. -/
theorem not_active_of_lost (hs : Sound s.keys) (hrow : s.keys.lookup kid = some row)
    (hrow' : (s.apply e).keys.lookup kid = some row') (hso : row.privateKey ≠ none)
    (hno : row'.privateKey = none) : row.state ≠ .active := by
  have hchg := change_apply hs e kid
  rw [hrow, hrow'] at hchg
  cases hchg with
  | purge hst => exact hst
  | _ => exact absurd hno hso

/-- After any history of passes, activations, retirements, purges and changes of schedule, whatever
follows: an algorithm has at most one active and one pending key; an active key has an active
successor for ever; a key that signed and stopped does not sign again; what makes a key active is
that it is the first, that it has propagated, or that it is activated by name; and a key that loses
its material was never active, or is superseded by the key that signs now. -/
theorem succession_of_path {events : List Event} (h : system.Path .init events s) :
    (∀ kid kid' row row', s.keys.lookup kid = some row → s.keys.lookup kid' = some row' →
      row.algorithm = row'.algorithm → row.state = row'.state →
        row.state = .active ∨ row.state = .pending → kid = kid') ∧
    (∀ events' s' kid row, system.Path s events' s' → s.keys.lookup kid = some row →
      row.state = .active → ∃ kid' row', s'.keys.lookup kid' = some row' ∧
      row'.algorithm = row.algorithm ∧ row'.state = .active) ∧
    (∀ events' s' events'' s'' kid, system.Path s events' s' → system.Path s' events'' s'' →
      s.Active kid → ¬ s'.Active kid → ¬ s''.Active kid) ∧
    (∀ e kid row', (s.apply e).keys.lookup kid = some row' → row'.state = .active →
      ¬ s.Active kid →
        (∀ k r, s.keys.lookup k = some r → r.algorithm ≠ row'.algorithm) ∨
        (∃ now forced generated row, e = .run row'.algorithm now forced generated ∧
          s.keys.lookup kid = some row ∧
          row.createdAt + (s.ensureSchedule row'.algorithm).val.propagationPeriod ≤ now) ∨
        ∃ now, e = .activate kid now) ∧
    ∀ e kid row row', s.keys.lookup kid = some row → (s.apply e).keys.lookup kid = some row' →
      row.privateKey ≠ none → row'.privateKey = none →
        (∀ events₁ s₁ events₂, system.Path .init events₁ s₁ → system.Path s₁ events₂ s →
          ¬ s₁.Active kid) ∨
        row.retiringAt.isSome ∧ ∃ kid' row₁, kid' ≠ kid ∧ s.keys.lookup kid' = some row₁ ∧
        row₁.algorithm = row.algorithm ∧ row₁.state = .active := by
  have hs : Sound s.keys := sound_of_path h sound_nil
  refine ⟨?_, ?_, ?_, fun e kid row' => active_apply hs, ?_⟩
  · intro kid kid' row row' hrow hrow' halg hsm hst
    rcases hst with hact | hpd
    · exact hs.active kid kid' row row' hrow hrow' halg hact (hsm ▸ hact)
    · exact hs.pending kid kid' row row' hrow hrow' halg hpd (hsm ▸ hpd)
  · intro events' s' kid row hp hrow _
    obtain ⟨row', hrow', halg⟩ := kept_of_path hp hs hrow
    obtain ⟨kid₁, row₁, hrow₁, halg₁, hact₁⟩ := (sound_of_path hp hs).covered kid row' hrow'
    exact ⟨kid₁, row₁, hrow₁, halg₁.trans halg, hact₁⟩
  · intro _ s' _ _ kid hp hp' hact hstop haga
    have hs' := sound_of_path hp hs
    obtain ⟨row', hrow', hstp⟩ := activatedAt_of_path hp hs hact
    have hpa : s'.Past kid := by
      refine ⟨row', hrow', fun hst => hstop ⟨row', hrow', hst⟩, fun hpd => ?_⟩
      rw [(hs'.stamped kid row' hrow').pending hpd] at hstp
      nomatch hstp
    obtain ⟨_, hrow₂, hne, -⟩ := past_of_path hp' hs' hpa
    obtain ⟨_, hrow₃, hst⟩ := haga
    cases hrow₂.symm.trans hrow₃
    exact hne hst
  · intro _ kid row _ hrow hrow' hso hno
    have hst := not_active_of_lost hs hrow hrow' hso hno
    by_cases hstp : row.activatedAt.isSome
    · obtain ⟨kid₁, row₁, hrow₁, halg₁, hact₁⟩ := hs.covered kid row hrow
      refine .inr ⟨(hs.stamped kid row hrow).stopped hst hstp, kid₁, row₁, ?_, hrow₁, halg₁, hact₁⟩
      rintro rfl
      cases hrow.symm.trans hrow₁
      exact hst hact₁
    · refine .inl fun events₁ s₁ events₂ hp₁ hp₂ hact => ?_
      have hs₁ : Sound s₁.keys := sound_of_path hp₁ sound_nil
      obtain ⟨_, hrow₁, hstp₁⟩ := activatedAt_of_path hp₂ hs₁ hact
      cases hrow.symm.trans hrow₁
      exact hstp hstp₁

/-- Every sequence of operations is a history. -/
theorem path_foldl (events : List Event) (s : State) :
    system.Path s events (events.foldl State.apply s) := by
  induction events generalizing s with
  | nil => exact .nil s
  | cons e events ih => exact .cons rfl (ih _)

/-- A generated key under an identifier. -/
def newKey (kid : String) : NewKey :=
  ⟨kid, [("kty", .str "OKP"), ("use", .str "sig")], ⟨"kek", [], []⟩, rfl⟩

/-- A key is replaced by its successor on schedule, and purged while it is retiring. -/
def compromise : List Event :=
  [.run .edDsa 0 false (.ok (newKey "a")), .run .edDsa (seconds 10) true (.ok (newKey "b")),
    .run .edDsa (seconds 1000) false (.error .storage), .purge "a" (seconds 1001)]

theorem succession_of_path_compromise :
    ((compromise.foldl State.apply .init).keys.map fun e => (e.1, e.2.state)) =
        [("a", .purged), ("b", .active)] ∧
      ∀ kid kid' row row', (compromise.foldl State.apply .init).keys.lookup kid = some row →
        (compromise.foldl State.apply .init).keys.lookup kid' = some row' →
          row.algorithm = row'.algorithm → row.state = row'.state →
            row.state = .active ∨ row.state = .pending → kid = kid' :=
  ⟨by decide +kernel, (succession_of_path (path_foldl compromise .init)).1⟩

end Lifecycle

end AsteriusIdp.Keys
