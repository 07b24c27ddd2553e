import AsteriusIdp.Sessions.Store

/-!
# Sessions under every interleaving

What becomes of one session while touches, rotations, revocations and changes of the policy run
statement by statement.

* `continued_of_apply` : what one step can do to the rows of the table.
* `follows_of_path` : a session keeps its absolute deadline, and a revoked one stays revoked.
* `Idled.of_path` : a session past its idle deadline stays so, unless a touch was under way.
* `session_safe` : the guarantees of a session over a whole run.
-/

namespace AsteriusIdp.Sessions

open Transition Entries State

/-! ### One session -/

namespace Session

variable {session : Session} {now : ℤ}

section

variable (policy : Option SessionPolicy)

@[simp] theorem revokedAt_under : (session.under policy).revokedAt = session.revokedAt := by
  cases policy <;> rfl

theorem expiresAt_under_le : (session.under policy).expiresAt ≤ session.expiresAt := by
  cases policy with
  | none => exact le_rfl
  | some => exact min_le_left _ _

theorem idleExpiresAt_under_le : (session.under policy).idleExpiresAt ≤ session.idleExpiresAt := by
  cases policy with
  | none => exact le_rfl
  | some => exact (min_le_left _ _).trans (min_le_left _ _)

end

theorem status_eq_active : session.status now = .active ↔ session.live now = true := by
  unfold status revoked live
  cases session.revokedAt with
  | some => simp
  | none =>
    by_cases hexpd : session.expiresAt ≤ now
    · simp [hexpd]
    · by_cases hid : session.idleExpiresAt ≤ now
      · simp [hexpd, hid]
      · simp [hid, not_le.1 hexpd, not_le.1 hid]

theorem live_eq_true : session.live now = true ↔
    session.revokedAt = none ∧ now < session.expiresAt ∧ now < session.idleExpiresAt := by
  simp [live]

/-- A session that is usable under some policy is so by its own deadlines. -/
theorem live_of_active {policy : Option SessionPolicy}
    (h : (session.under policy).status now = .active) : session.live now = true := by
  obtain ⟨hrev, hexp, hid⟩ := live_eq_true.1 (status_eq_active.1 h)
  exact live_eq_true.2 ⟨by simpa using hrev, hexp.trans_le (expiresAt_under_le policy),
    hid.trans_le (idleExpiresAt_under_le policy)⟩

theorem exists_status_of_revokedAt (h : session.revokedAt.isSome) :
    ∃ reason, session.status now = .revoked reason := by
  obtain ⟨_, hat⟩ := Option.isSome_iff_exists.1 h
  exact ⟨_, by simp only [status, revoked, hat]; rfl⟩

/-- What no statement takes back. -/
structure Follows (session session' : Session) : Prop where
  publicSid : session'.publicSid = session.publicSid
  expiresAt : session'.expiresAt = session.expiresAt
  revokedAt : session.revokedAt.isSome → session'.revokedAt.isSome

theorem Follows.refl (session : Session) : session.Follows session := ⟨rfl, rfl, id⟩

theorem Follows.trans {session' session'' : Session} (h : session.Follows session')
    (h' : session'.Follows session'') : session.Follows session'' :=
  ⟨h'.publicSid.trans h.publicSid, h'.expiresAt.trans h.expiresAt, h'.revokedAt ∘ h.revokedAt⟩

end Session

/-! ### Steps -/

theorem State.apply_advance (s : State) (r : ℕ) :
    s.apply (.advance r) = some { s with
      sessions := (s.statement (s.requests r)).1
      requests := Function.update s.requests r (s.statement (s.requests r)).2 } := rfl

/-- What a statement can do to a row. -/
inductive Changes (s : State) : Session → Session → Prop
  | same (session : Session) : Changes s session session
  | touched {r : ℕ} {digest : String} {now deadline : ℤ} {session : Session} :
    s.requests r = .touching digest now deadline → session.live now = true →
    Changes s session (session.touched now deadline)
  | rotated {session : Session} (proof : VerifiedSessionRotation) (now : ℤ) :
    Changes s session (session.rotated proof now)
  | revoked (session : Session) (reason : SessionRevocation) (now : ℤ) :
    Changes s session (session.revoke reason now)

variable {s s' : State} {session' : Session} {e : Event} {events : List Event} {d : String}

theorem Changes.follows {session : Session} (h : Changes s session session') :
    session.Follows session' := by
  cases h with
  | same => exact .refl _
  | touched => exact ⟨rfl, rfl, id⟩
  | rotated => exact ⟨rfl, rfl, id⟩
  | revoked =>
    refine ⟨rfl, rfl, fun h => ?_⟩
    obtain ⟨_, hat⟩ := Option.isSome_iff_exists.1 h
    simp [Session.revoke]

/-- The rows of `t` are those of the state before, each under the digest it had or under a new
one. -/
structure Continued (s : State) (t : Table) (origin : String → String) : Prop where
  changes : ∀ {d : String} {session' : Session}, t.lookup d = some session' →
    ∃ session, s.sessions.lookup (origin d) = some session ∧ Changes s session session'
  inj : ∀ {d₁ d₂ : String}, (t.lookup d₁).isSome → (t.lookup d₂).isSome →
    origin d₁ = origin d₂ → d₁ = d₂
  onto : ∀ {d : String}, (s.sessions.lookup d).isSome →
    ∃ d', (t.lookup d').isSome ∧ origin d' = d

/-- Rows that are changed where they are. -/
theorem continued_updateWhere {p : String → Session → Bool} {f : Session → Session}
    (h : ∀ d session, p d session = true → Changes s session (f session)) :
    Continued s (updateWhere p f s.sessions) id where
  changes {d session'} hlk := by
    rw [lookup_updateWhere, Option.map_eq_some_iff] at hlk
    obtain ⟨session, hse, rfl⟩ := hlk
    refine ⟨session, hse, ?_⟩
    split_ifs with hp
    · exact h d session hp
    · exact .same session
  inj _ _ heq := heq
  onto {d} hd := ⟨d, by simpa using hd, rfl⟩

theorem continued_refl (s : State) : Continued s s.sessions id where
  changes hlk := ⟨_, hlk, .same _⟩
  inj _ _ heq := heq
  onto hd := ⟨_, hd, rfl⟩

theorem Table.rotate_eq_some {sessions t : Table} {oldDigest newDigest : String}
    {proof : VerifiedSessionRotation} {now : ℤ}
    (h : sessions.rotate oldDigest newDigest proof now = some t) :
    ∃ session, lookup sessions oldDigest = some session ∧ session.live now = true ∧
    lookup (sessions.erase oldDigest) newDigest = none ∧
    t = (sessions.erase oldDigest).insert newDigest (session.rotated proof now) := by
  unfold Table.rotate at h
  split at h
  · cases h
  · next session hse =>
    split_ifs at h with hlv hcon href
    refine ⟨session, hse, by simpa using hlv, ?_, (Option.some.inj h).symm⟩
    simpa [contains] using hcon

/-- A row that moves to a new digest. -/
theorem continued_rotate {t : Table} {oldDigest newDigest : String}
    {proof : VerifiedSessionRotation} {now : ℤ}
    (h : s.sessions.rotate oldDigest newDigest proof now = some t) :
    Continued s t (fun d => if d = newDigest then oldDigest else d) := by
  obtain ⟨session, hse, -, hfr, rfl⟩ := Table.rotate_eq_some h
  -- the old digest is no longer a key, unless it is the new one
  have hkey : ∀ {d : String}, (lookup ((s.sessions.erase oldDigest).insert newDigest
      (session.rotated proof now)) d).isSome → d ≠ newDigest → d ≠ oldDigest := by
    rintro d hd hne rfl
    simp [lookup_insert_of_ne _ _ hne] at hd
  refine ⟨fun {d session'} hlk => ?_, fun {d₁ d₂} h₁ h₂ heq => ?_, fun {d} hd => ?_⟩
  · by_cases hd : d = newDigest
    · subst hd
      rw [lookup_insert_self, Option.some.injEq] at hlk
      subst hlk
      exact ⟨session, by simpa using hse, .rotated proof now⟩
    · have hne := hkey (by rw [hlk]; rfl) hd
      rw [lookup_insert_of_ne _ _ hd, lookup_erase_of_ne _ hne] at hlk
      exact ⟨session', by simpa [hd] using hlk, .same session'⟩
  · split_ifs at heq with hd₁ hd₂ hd₂
    · rw [hd₁, hd₂]
    · exact absurd heq.symm (hkey h₂ hd₂)
    · exact absurd heq (hkey h₁ hd₁)
    · exact heq
  · by_cases hold : d = oldDigest
    · exact ⟨newDigest, by simp, by simp [hold]⟩
    · by_cases hnew : d = newDigest
      · rw [← hnew, lookup_erase_of_ne _ hold] at hfr
        exact absurd hd (by simp [hfr])
      · refine ⟨d, ?_, by simp [hnew]⟩
        rwa [lookup_insert_of_ne _ _ hnew, lookup_erase_of_ne _ hold]

theorem continued_statement (s : State) (r : ℕ) :
    ∃ origin, Continued s (s.statement (s.requests r)).1 origin := by
  cases hph : s.requests r with
  | touching =>
    simp only [statement]
    refine ⟨id, continued_updateWhere fun d session hp => ?_⟩
    rw [Bool.and_eq_true] at hp
    exact .touched hph hp.2
  | rotating =>
    simp only [statement]
    split
    · exact ⟨id, continued_refl s⟩
    · next hrot => exact ⟨_, continued_rotate hrot⟩
  | revoking digest reason now =>
    simp only [statement]
    exact ⟨id, continued_updateWhere fun d session _ => .revoked session reason now⟩
  | finding | naming =>
    simp only [statement]
    split <;> exact ⟨id, continued_refl s⟩
  | _ => exact ⟨id, continued_refl s⟩

/-- **Steps.**  Every step keeps the rows, up to a change of one of them. -/
theorem continued_of_apply (h : s.apply e = some s') :
    ∃ origin, Continued s s'.sessions origin := by
  cases e with
  | setPolicy =>
    cases h
    exact ⟨id, continued_refl s⟩
  | arrive =>
    simp only [apply] at h
    split at h
    · split_ifs at h
      cases h
      exact ⟨id, continued_refl s⟩
    · cases h
  | advance r =>
    rw [apply_advance, Option.some.injEq] at h
    subst h
    exact continued_statement s r

/-! ### Runs -/

theorem follows_of_path (h : system.Path s events s') (hlk : lookup s'.sessions d = some session') :
    ∃ d₀ session, lookup s.sessions d₀ = some session ∧ session.Follows session' := by
  induction h with
  | nil => exact ⟨d, session', hlk, .refl _⟩
  | cons hst _ ih =>
    obtain ⟨_, _, hlk₁, hfol⟩ := ih hlk
    obtain ⟨_, hctd⟩ := continued_of_apply hst
    obtain ⟨session, hse, hcg⟩ := hctd.changes hlk₁
    exact ⟨_, session, hse, hcg.follows.trans hfol⟩

theorem exists_of_path (h : system.Path s events s') {session : Session}
    (hlk : lookup s.sessions d = some session) :
    ∃ d' session', lookup s'.sessions d' = some session' ∧
    session'.publicSid = session.publicSid := by
  induction h generalizing d session with
  | nil => exact ⟨d, session, hlk, rfl⟩
  | cons hst _ ih =>
    obtain ⟨_, hctd⟩ := continued_of_apply hst
    obtain ⟨_, hd₁, rfl⟩ := hctd.onto (by rw [hlk]; rfl)
    obtain ⟨_, hse₁⟩ := Option.isSome_iff_exists.1 hd₁
    obtain ⟨_, hse₀, hcg⟩ := hctd.changes hse₁
    cases hse₀.symm.trans hlk
    obtain ⟨d', session', hlk', hsid⟩ := ih hse₁
    exact ⟨d', session', hlk', hsid.trans hcg.follows.publicSid⟩

/-- No two digests name the same session. -/
def Distinct (s : State) : Prop :=
  ∀ d d' session session', s.sessions.lookup d = some session →
    s.sessions.lookup d' = some session' → session.publicSid = session'.publicSid → d = d'

theorem distinct_of_path (h : system.Path s events s') : Distinct s → Distinct s' := by
  refine h.invariant fun s e s' hst hdi d d' session session' hd hd' hsid => ?_
  obtain ⟨_, hctd⟩ := continued_of_apply hst
  obtain ⟨_, hse₀, hcg⟩ := hctd.changes hd
  obtain ⟨_, hse₀', hcg'⟩ := hctd.changes hd'
  refine hctd.inj (by rw [hd]; rfl) (by rw [hd']; rfl)
    (hdi _ _ _ _ hse₀ hse₀' ?_)
  rw [← hcg.follows.publicSid, hsid, hcg'.follows.publicSid]

/-! ### Requests that have not written yet -/

/-- What a rotation has generated. -/
def Purpose.newDigest : Purpose → Option String
  | .touch _ => none
  | .rotate newDigest _ => some newDigest

/-- The clock of a touch or a rotation that has not written yet, and the digest a rotation is going
to write. -/
def Phase.pending : Phase → Option (ℤ × Option String)
  | .finding purpose _ now => some (now, purpose.newDigest)
  | .constraining purpose _ now _ => some (now, purpose.newDigest)
  | .extending _ now _ _ => some (now, none)
  | .touching _ now _ => some (now, none)
  | .rotating _ newDigest _ now => some (now, some newDigest)
  | _ => none

theorem pending_statement {phase : Phase} {p : ℤ × Option String}
    (h : (s.statement phase).2.pending = some p) : phase.pending = some p := by
  cases phase with
  | finding =>
    simp only [statement] at h
    split at h
    · cases h
    · exact h
  | constraining purpose =>
    simp only [statement, Phase.proceed] at h
    split_ifs at h
    · cases purpose <;> exact h
    · cases h
  | rotating =>
    simp only [statement] at h
    split at h <;> cases h
  | naming =>
    simp only [statement] at h
    split at h <;> cases h
  | extending => exact h
  | _ => cases h

theorem pending_start {req : Request} {now n : ℤ} {newDigest : Option String}
    (h : (req.start now).pending = some (n, newDigest)) : n = now ∧ newDigest = req.newDigest := by
  cases req with
  | find purpose =>
    cases Option.some.inj h
    cases purpose <;> exact ⟨rfl, rfl⟩
  | revoke => cases h

/-- A request that is pending was so before, or it has just arrived. -/
theorem pending_of_apply (h : s.apply e = some s') {r : ℕ} {n : ℤ} {newDigest : Option String}
    (hpd : (s'.requests r).pending = some (n, newDigest)) :
    (s.requests r).pending = some (n, newDigest) ∨
      (s.clock ≤ n ∧ s'.sessions = s.sessions ∧
        (∀ d, newDigest = some d → d ∉ s.digests ∧ d ∈ s'.digests) ∧
        ∀ r', r' ≠ r → s'.requests r' = s.requests r') := by
  cases e with
  | setPolicy =>
    cases h
    exact .inl hpd
  | advance r₀ =>
    rw [apply_advance, Option.some.injEq] at h
    subst h
    refine .inl ?_
    by_cases hr : r = r₀
    · subst hr
      simp only [Function.update_self] at hpd
      exact pending_statement hpd
    · simpa [Function.update_of_ne hr] using hpd
  | arrive r₀ =>
    simp only [apply] at h
    split at h
    · split_ifs at h with hgrd
      cases h
      push Not at hgrd
      by_cases hr : r = r₀
      · subst hr
        simp only [Function.update_self] at hpd
        obtain ⟨rfl, rfl⟩ := pending_start hpd
        refine .inr ⟨hgrd.1, rfl, fun d hd => ⟨hgrd.2 d hd, ?_⟩,
          fun r' hr' => Function.update_of_ne hr' ..⟩
        simp [hd]
      · exact .inl (by simpa [Function.update_of_ne hr] using hpd)
    · cases h

/-- Neither the clock nor the set of generated digests goes back. -/
theorem le_of_apply (h : s.apply e = some s') : s.clock ≤ s'.clock ∧ s.digests ⊆ s'.digests := by
  cases e with
  | setPolicy | advance =>
    cases h
    exact ⟨le_rfl, subset_rfl⟩
  | arrive =>
    simp only [apply] at h
    split at h
    · split_ifs at h with hgrd
      cases h
      push Not at hgrd
      exact ⟨hgrd.1, Finset.subset_union_left⟩
    · cases h

/-- A key of the table was one before, or a rotation has just written it. -/
theorem key_of_apply (h : s.apply e = some s') (hd : (lookup s'.sessions d).isSome) :
    (lookup s.sessions d).isSome ∨
      ∃ r n, (s.requests r).pending = some (n, some d) ∧ (s'.requests r).pending = none := by
  cases e with
  | setPolicy =>
    cases h
    exact .inl hd
  | arrive =>
    simp only [apply] at h
    split at h
    · split_ifs at h
      cases h
      exact .inl hd
    · cases h
  | advance r =>
    rw [apply_advance, Option.some.injEq] at h
    subst h
    cases hph : s.requests r with
    | touching =>
      simp only [hph, statement, Table.touchStored] at hd
      exact .inl (by simpa using hd)
    | revoking =>
      simp only [hph, statement, Table.revoke] at hd
      exact .inl (by simpa using hd)
    | rotating oldDigest newDigest proof now =>
      cases hrot : s.sessions.rotate oldDigest newDigest proof now with
      | none =>
        simp only [hph, statement, hrot] at hd
        exact .inl hd
      | some =>
        simp only [hph, statement, hrot] at hd
        obtain ⟨_, -, -, -, rfl⟩ := Table.rotate_eq_some hrot
        by_cases hnew : d = newDigest
        · subst hnew
          exact .inr ⟨r, now, by rw [hph]; rfl, by simp [statement, hrot, Phase.pending]⟩
        · rw [lookup_insert_of_ne _ _ hnew, lookup_erase] at hd
          split_ifs at hd with hold
          · cases hd
          · exact .inl hd
    | finding | naming =>
      simp only [hph, statement] at hd
      split at hd <;> exact .inl hd
    | _ =>
      simp only [hph, statement] at hd
      exact .inl hd

/-! ### Idle sessions -/

/-- The session is past its idle deadline at `now`, and no touch with an earlier clock is under
way. -/
structure Idled (sid : String) (now : ℤ) (s : State) : Prop where
  idle : ∀ d session, s.sessions.lookup d = some session → session.publicSid = sid →
    session.idleExpiresAt ≤ now
  clock : now ≤ s.clock
  touches : ∀ r n, (s.requests r).pending = some (n, none) → now ≤ n

theorem Idled.of_path {sid : String} {now : ℤ} (h : system.Path s events s') :
    Idled sid now s → Idled sid now s' := by
  refine h.invariant fun s e s' hst hidl => ⟨fun d session' hlk hsid => ?_, ?_, ?_⟩
  · obtain ⟨_, hctd⟩ := continued_of_apply hst
    obtain ⟨_, hse, hcg⟩ := hctd.changes hlk
    have hid := hidl.idle _ _ hse (hcg.follows.publicSid.symm.trans hsid)
    cases hcg with
    | same | rotated | revoked => exact hid
    | touched hph hlv =>
      -- the guard of the statement refuses every clock from `now` on
      have hclk := hidl.touches _ _ (by rw [hph]; rfl)
      exact absurd (Session.live_eq_true.1 hlv).2.2 (not_lt.2 (hid.trans hclk))
  · exact hidl.clock.trans (le_of_apply hst).1
  · intro r n hpd
    rcases pending_of_apply hst hpd with hbef | ⟨hclk, -⟩
    · exact hidl.touches r n hbef
    · exact hidl.clock.trans hclk

/-! ### Digests -/

/-- Every digest in use was generated, and the ones rotations are going to write are not in use. -/
structure Fresh (s : State) : Prop where
  known : ∀ d, (s.sessions.lookup d).isSome → d ∈ s.digests
  pending : ∀ r n d, (s.requests r).pending = some (n, some d) →
    d ∈ s.digests ∧ s.sessions.lookup d = none
  distinct : ∀ r r' n n' d, (s.requests r).pending = some (n, some d) →
    (s.requests r').pending = some (n', some d) → r = r'

/-- A digest that was used and is neither a key nor going to be one. -/
structure Spent (d : String) (s : State) : Prop where
  known : d ∈ s.digests
  absent : s.sessions.lookup d = none
  pending : ∀ r n, (s.requests r).pending ≠ some (n, some d)

theorem Fresh.of_apply (h : s.apply e = some s') (hfr : Fresh s) :
    Fresh s' where
  known d hd := by
    refine (le_of_apply h).2 ?_
    rcases key_of_apply h hd with hd | ⟨r, n, hpd, -⟩
    · exact hfr.known d hd
    · exact (hfr.pending r n d hpd).1
  pending r n d hpd := by
    rcases pending_of_apply h hpd with hbef | ⟨-, hse, hnew, -⟩
    · obtain ⟨hkn, hno⟩ := hfr.pending r n d hbef
      refine ⟨(le_of_apply h).2 hkn, Option.not_isSome_iff_eq_none.1 fun hd => ?_⟩
      rcases key_of_apply h hd with hd | ⟨r', n', hpd', hdn⟩
      · rw [hno] at hd
        cases hd
      · -- the rotation that wrote it is this one, and this one is still to write
        obtain rfl := hfr.distinct r r' n n' d hbef hpd'
        cases hdn.symm.trans hpd
    · obtain ⟨hunk, hkn⟩ := hnew d rfl
      refine ⟨hkn, Option.not_isSome_iff_eq_none.1 fun hd => hunk (hfr.known d ?_)⟩
      rwa [← hse]
  distinct r r' n n' d hpd hpd' := by
    by_contra hne
    rcases pending_of_apply h hpd with hbef | ⟨-, -, hnew, hrs⟩
    · rcases pending_of_apply h hpd' with hbef' | ⟨-, -, hnew', _⟩
      · exact hne (hfr.distinct r r' n n' d hbef hbef')
      · exact (hnew' d rfl).1 (hfr.pending r n d hbef).1
    · rw [hrs r' (Ne.symm hne)] at hpd'
      exact (hnew d rfl).1 (hfr.pending r' n' d hpd').1

theorem Spent.of_apply (h : s.apply e = some s') (hsp : Spent d s) : Spent d s' where
  known := (le_of_apply h).2 hsp.known
  absent := by
    refine Option.not_isSome_iff_eq_none.1 fun hd => ?_
    rcases key_of_apply h hd with hd | ⟨r, n, hpd, -⟩
    · rw [hsp.absent] at hd
      cases hd
    · exact hsp.pending r n hpd
  pending r n hpd := by
    rcases pending_of_apply h hpd with hbef | ⟨-, -, hnew, -⟩
    · exact hsp.pending r n hbef
    · exact (hnew d rfl).1 hsp.known

/-- A digest that names a session goes on naming one until it is spent for good. -/
theorem spent_of_path (h : system.Path s events s') (hfr : Fresh s)
    (hd : (lookup s.sessions d).isSome) : (lookup s'.sessions d).isSome ∨ Spent d s' := by
  have hrun : Fresh s ∧ ((lookup s.sessions d).isSome ∨ Spent d s) := ⟨hfr, .inl hd⟩
  refine (h.invariant (I := fun s => Fresh s ∧ ((lookup s.sessions d).isSome ∨ Spent d s))
    (fun s e s' hst hs => ⟨hs.1.of_apply hst, ?_⟩) hrun).2
  rcases hs.2 with hd | hsp
  · by_cases hd' : (lookup s'.sessions d).isSome
    · exact .inl hd'
    · refine .inr ⟨(le_of_apply hst).2 (hs.1.known d hd), by simpa using hd', ?_⟩
      intro r n hpd
      rcases pending_of_apply hst hpd with hbef | ⟨-, -, hnew, -⟩
      · rw [(hs.1.pending r n d hbef).2] at hd
        cases hd
      · exact (hnew d rfl).1 (hs.1.known d hd)
  · exact .inr (hsp.of_apply hst)

/-! ### The guarantees -/

theorem State.Initial.fresh (h : s.Initial) : Fresh s where
  known := h.known
  pending r n d hpd := by
    rw [h.absent r] at hpd
    cases hpd
  distinct r r' n n' d hpd _ := by
    rw [h.absent r] at hpd
    cases hpd

theorem fresh_of_path (h : system.Path s events s') : Fresh s → Fresh s' :=
  h.invariant fun _ _ _ hst hfr => hfr.of_apply hst

/-- By what is stored of it, the session is over at `now`: it is revoked or past its absolute
deadline, or it is past its idle deadline and no touch with an earlier clock is under way. -/
def State.Over (s : State) (session : Session) (now : ℤ) : Prop :=
  session.revokedAt.isSome ∨ session.expiresAt ≤ now ∨
    session.idleExpiresAt ≤ now ∧ now ≤ s.clock ∧
    ∀ r n, (s.requests r).pending = some (n, none) → now ≤ n

/-- A session that is over is not usable again, whatever the policy. -/
theorem not_active_of_over (h : system.Path s events s') (hdi : Distinct s) {d' : String}
    {session : Session} (hse : lookup s.sessions d = some session)
    (hse' : lookup s'.sessions d' = some session') (hfol : session.Follows session') {now now' : ℤ}
    (hle : now ≤ now') (hov : s.Over session now) (policy : Option SessionPolicy) :
    (session'.under policy).status now' ≠ .active := by
  intro hact
  obtain ⟨hrev, hexp, hid⟩ := Session.live_eq_true.1 (Session.live_of_active hact)
  rcases hov with hso | hexpd | ⟨hidl, hclk, hto⟩
  · have := hfol.revokedAt hso
    rw [hrev] at this
    cases this
  · rw [hfol.expiresAt] at hexp
    exact absurd hexp (not_lt.2 (hexpd.trans hle))
  · have hsta : Idled session.publicSid now s :=
      ⟨fun d₁ session₁ hlk hsid => by
        obtain rfl := hdi d₁ d _ _ hlk hse hsid
        cases hlk.symm.trans hse
        exact hidl, hclk, hto⟩
    have hend := (hsta.of_path h).idle d' session' hse' hfol.publicSid
    exact absurd hid (not_lt.2 (hend.trans hle))

/-- **Sessions under every interleaving.**  In any run that starts without requests, a session that
a digest names at some moment is named by exactly one digest at every later one.  Its absolute
deadline stays, and no policy moves it later.  Once it is over by what is stored of it, no lookup
reports it usable.  Once the statement of a revocation found it, every lookup reports it revoked.
A digest that no longer names it never names a session again. -/
theorem session_safe {s₀ s s' : State} {events events' : List Event} (hinit : s₀.Initial)
    (hrun : system.Path s₀ events s) (hrun' : system.Path s events' s') {digest : String}
    {session : Session} (hsession : Entries.lookup s.sessions digest = some session) :
    (∃! d, ∃ later, Entries.lookup s'.sessions d = some later ∧
      later.publicSid = session.publicSid) ∧ (∀ d later, Entries.lookup s'.sessions d = some later →
      later.publicSid = session.publicSid → later.expiresAt = session.expiresAt ∧
      (∀ policy, (later.under policy).expiresAt ≤ session.expiresAt) ∧
      (∀ now now' policy, now ≤ now' → s.Over session now →
        (later.under policy).status now' ≠ .active) ∧
      (∀ r reason now rest, s.requests r = .revoking digest reason now →
        events' = .advance r :: rest →
        ∀ policy now', ∃ reason', (later.under policy).status now' = .revoked reason')) ∧
    (Entries.lookup s'.sessions digest = none → ∀ events'' s'', system.Path s' events'' s'' →
      Entries.lookup s''.sessions digest = none) := by
  have hdi : Distinct s := distinct_of_path hrun hinit.distinct
  have hfr : Fresh s := fresh_of_path hrun hinit.fresh
  have hkp : ∀ d later, lookup s'.sessions d = some later →
      later.publicSid = session.publicSid → session.Follows later := by
    intro d later hlat hsid
    obtain ⟨d₀, _, hsession₀, hfol⟩ := follows_of_path hrun' hlat
    obtain rfl := hdi d₀ digest _ _ hsession₀ hsession (hfol.publicSid.symm.trans hsid)
    cases hsession₀.symm.trans hsession
    exact hfol
  refine ⟨?_, fun d later hlat hsid => ?_, fun hno events'' s'' hrun'' => ?_⟩
  · obtain ⟨d, later, hlat, hsid⟩ := exists_of_path hrun' hsession
    refine ⟨d, ⟨later, hlat, hsid⟩, fun d' hd' => ?_⟩
    obtain ⟨_, hlat', hsid'⟩ := hd'
    exact distinct_of_path hrun' hdi _ _ _ _ hlat' hlat (hsid'.trans hsid.symm)
  · have hfol := hkp d later hlat hsid
    refine ⟨hfol.expiresAt,
      fun policy => hfol.expiresAt ▸ Session.expiresAt_under_le policy,
      fun now now' policy hle hov =>
        not_active_of_over hrun' hdi hsession hlat hfol hle hov policy,
      fun r reason now rest hph heq policy now' => ?_⟩
    subst heq
    cases hrun' with
    | @cons _ s₁ _ _ _ hst hrs =>
      have hrev : lookup s₁.sessions digest = some (session.revoke reason now) := by
        have happ : s.apply (.advance r) = some s₁ := hst
        rw [apply_advance, Option.some.injEq] at happ
        simp [← happ, hph, statement, Table.revoke, hsession]
      obtain ⟨_, _, hsession₁, hfol₁⟩ := follows_of_path hrs hlat
      obtain rfl := distinct_of_path (.cons hst (.nil _)) hdi _ _ _ _ hsession₁ hrev
        (hfol₁.publicSid.symm.trans hsid)
      cases hsession₁.symm.trans hrev
      refine Session.exists_status_of_revokedAt ?_
      rw [Session.revokedAt_under]
      exact hfol₁.revokedAt (by simp [Session.revoke])
  · have hsp : Spent digest s' := by
      rcases spent_of_path hrun' hfr (by rw [hsession]; rfl) with hd | hsp
      · rw [hno] at hd
        cases hd
      · exact hsp
    exact (hrun''.invariant (fun _ _ _ hst hsp => hsp.of_apply hst) hsp).absent

/-! ### A session of one hour -/

/-- Begun at 0, with the default lifetimes. -/
def defaultSession : Session :=
  { publicSid := "sid", user := "ada", createdAt := 0, authenticatedAt := 0, lastSeenAt := 0,
    expiresAt := seconds 43200, idleExpiresAt := seconds 3600, acr := none, amr := ["pwd"],
    revokedAt := none, revocationReason := none }

/-- It alone. -/
def oneSession : State :=
  { sessions := [("d1", defaultSession)], policy := none, clock := 0, digests := {"d1"},
    requests := fun _ => .absent }

theorem initial_oneSession : oneSession.Initial where
  absent _ := rfl
  distinct d d' session session' hd hd' _ := by
    simp only [oneSession, lookup_cons, lookup_nil] at hd hd'
    split_ifs at hd hd' with h h'
    rw [h, h']
  known d hd := by
    simp only [oneSession, lookup_cons, lookup_nil] at hd
    split_ifs at hd with h
    · exact Finset.mem_singleton.2 h
    · cases hd

/-- What a lookup reports of the session a digest names. -/
def State.report (s : State) (digest : String) (now : ℤ) : Option SessionStatus :=
  (s.sessions.lookup digest).map fun session => (session.under s.policy).status now

/-- Two runs, one after the other, with what holds at the end of each. -/
theorem exists_paths {s₀ : State} {events' : List Event} {p q : State → Bool}
    (h : (events.foldlM apply s₀).any (fun s => p s && (events'.foldlM apply s).any q) = true) :
    ∃ s s', system.Path s₀ events s ∧ p s = true ∧ system.Path s events' s' ∧ q s' = true := by
  obtain ⟨s, hs, hp⟩ := (Option.any_eq_true _ _).1 h
  obtain ⟨hp, hq⟩ := Bool.and_eq_true_iff.1 hp
  obtain ⟨s', hs', hq⟩ := (Option.any_eq_true _ _).1 hq
  exact ⟨s, s', .of_foldlM hs, hp, .of_foldlM hs', hq⟩

/-- A rotation, and then a logout and a touch that have both found the session. -/
def logoutRace : List Event :=
  [.arrive 0 (.find (.rotate "d2" ⟨[], none, none, none, []⟩) "d1") 5,
    .advance 0, .advance 0, .advance 0, .arrive 1 (.revoke "d2" .userLogout) 10,
    .arrive 2 (.find (.touch (seconds 60)) "d2") 10,
    .advance 2, .advance 1, .advance 2, .advance 2]

/-- The revocation is written, then the settings are saved and the touch writes. -/
theorem session_safe_logout : ∃ s s', system.Path oneSession logoutRace s ∧
    system.Path s [.advance 1, .setPolicy none, .advance 2] s' ∧
    (∃! d, ∃ later, Entries.lookup s'.sessions d = some later ∧ later.publicSid = "sid") ∧
    ∀ d later, Entries.lookup s'.sessions d = some later → later.publicSid = "sid" →
      ∀ policy now, ∃ reason, (later.under policy).status now = .revoked reason := by
  obtain ⟨s, s', hp, hs, hp', -⟩ := exists_paths
    (p := fun s => decide (s.requests 1 = .revoking "d2" .userLogout 10 ∧
      (lookup s.sessions "d2").map (·.publicSid) = some "sid"))
    (show (logoutRace.foldlM apply oneSession).any (fun s => _ &&
      (List.foldlM apply s [.advance 1, .setPolicy none, .advance 2]).any fun _ => true) = true by
        decide +kernel)
  obtain ⟨hph, hse⟩ := of_decide_eq_true hs
  obtain ⟨session, hse, hid⟩ := Option.map_eq_some_iff.1 hse
  obtain ⟨hone, hend, -⟩ := session_safe initial_oneSession hp hp' hse
  rw [hid] at hone hend
  exact ⟨s, s', hp, hp', hone, fun d later hlat hsid =>
    (hend d later hlat hsid).2.2.2 1 .userLogout 10 _ hph rfl⟩

/-- A strict policy. -/
def twoMinutes : SessionPolicy :=
  { idle := 60, absolute := 120, absolute_bounded := by decide, idle_bounded := by decide }

/-- A session that the policy made idle is usable again once the policy is relaxed.  A touch that
was under way makes an idle session usable.  A revocation that looked the digest up before a
rotation wrote succeeds and leaves the session usable under the new digest. -/
theorem session_revived :
    (∃ s s', system.Path oneSession [.setPolicy (some twoMinutes)] s ∧
      s.report "d1" (seconds 90) = some .idle ∧ system.Path s [.setPolicy none] s' ∧
      s'.report "d1" (seconds 91) = some .active) ∧
    (∃ s s', system.Path oneSession [.arrive 0 (.find (.touch (seconds 3600)) "d1") (seconds 3599),
        .advance 0, .advance 0, .advance 0] s ∧
      s.report "d1" (seconds 3600) = some .idle ∧ system.Path s [.advance 0] s' ∧
      s'.report "d1" (seconds 3601) = some .active) ∧
    ∃ s s', system.Path oneSession [.arrive 0 (.revoke "d1" .userLogout) 10, .advance 0] s ∧
    s.report "d1" 10 = some .active ∧
    system.Path s [.arrive 1 (.find (.rotate "d2" ⟨[], none, none, none, []⟩) "d1") 10,
      .advance 1, .advance 1, .advance 1, .advance 0] s' ∧
    s'.requests 0 = .answered true ∧ s'.report "d2" 11 = some .active := by
  refine ⟨?_, ?_, ?_⟩
  · simpa using exists_paths
      (p := fun s => decide (s.report "d1" (seconds 90) = some .idle))
      (q := fun s => decide (s.report "d1" (seconds 91) = some .active))
      (by decide +kernel)
  · simpa using exists_paths
      (p := fun s => decide (s.report "d1" (seconds 3600) = some .idle))
      (q := fun s => decide (s.report "d1" (seconds 3601) = some .active))
      (by decide +kernel)
  · simpa using exists_paths
      (p := fun s => decide (s.report "d1" 10 = some .active))
      (q := fun s => decide (s.requests 0 = .answered true ∧ s.report "d2" 11 = some .active))
      (by decide +kernel)

end AsteriusIdp.Sessions
