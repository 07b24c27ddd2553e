import AsteriusIdp.Keys.Succession

/-!
# The grace period of a key

A key that has stopped signing is to stay in the JWK Set for the grace period of its algorithm.  A
pass retires the lapsed keys of every algorithm, and takes the grace period of its own for all of
them.  So the period of a key is kept in every history iff the algorithms have the same one.
-/

namespace AsteriusIdp.Keys

namespace Lifecycle

open Fallible Transition Entries State

variable {s s' : State} {kid : String} {alg : SigningAlgorithm} {now : ℤ}
  {schedules : SigningAlgorithm → Option Schedule}

/-! ### The published keys -/

/-- The key is in the JWK Set. -/
def State.Published (s : State) (kid : String) : Prop :=
  ∃ records, s.publishedKeys = .ok records ∧ ∃ record ∈ records, record.kid = kid

/-- The keys of the JWK Set, in its order. -/
def State.published (s : State) : List (String × KeyRow) :=
  (s.keys.filter fun e => e.2.state.isPublished).mergeSort inOrder

theorem mem_published (hs : Sound s.keys) {e : String × KeyRow} : e ∈ s.published ↔
    s.keys.lookup e.1 = some e.2 ∧ e.2.state.isPublished = true := by
  rw [published, List.mem_mergeSort, List.mem_filter, hs.sorted.lookup_iff_mem]

/-- The JWK Set can be served. -/
theorem publishedKeys_ok (hs : Sound s.keys) : s.publishedKeys = .ok (s.published.map fun e =>
    ⟨e.1, e.2.algorithm, e.2.purpose, e.2.state, e.2.publicJwk, e.2.createdAt⟩) := by
  refine mapM_ok.2 (List.forall₂_map_right_iff.2 (List.forall₂_same.2 fun e he => ?_))
  have hstp := hs.stamped _ _ ((mem_published hs).1 he).1
  have huse : (e.2.publicJwk.member "use").bind Json.asStr = some e.2.purpose.asStr := by
    rw [hstp.jwk_use, hstp.signing]
    rfl
  exact if_neg (not_not.2 huse)

/-- The JWK Set has the keys whose state is a published one. -/
theorem published_iff (hs : Sound s.keys) : s.Published kid ↔
    ∃ row, s.keys.lookup kid = some row ∧ row.state.isPublished = true := by
  constructor
  · rintro ⟨_, hrec, _, hre, rfl⟩
    cases (publishedKeys_ok hs).symm.trans hrec
    obtain ⟨e, he, rfl⟩ := List.mem_map.1 hre
    exact ⟨e.2, (mem_published hs).1 he⟩
  · rintro ⟨row, hrow⟩
    exact ⟨_, publishedKeys_ok hs, _, List.mem_map.2 ⟨(kid, row), (mem_published hs).2 hrow, rfl⟩,
      rfl⟩

/-! ### Keeping the grace period -/

/-- A tenant without keys. -/
def State.configured (schedules : SigningAlgorithm → Option Schedule) : State := ⟨[], schedules⟩

/-- The grace period of an algorithm. -/
def grace (schedules : SigningAlgorithm → Option Schedule) (algorithm : SigningAlgorithm) : ℤ :=
  ((schedules algorithm).getD .default).val.gracePeriod

/-- The instant of an operation on keys. -/
def Event.time : Event → Option ℤ
  | .run _ now _ _ | .activate _ now | .retire _ now | .purge _ now => some now
  | .setSchedule _ _ => none

/-- The operation is one on keys, and not an operator's that takes this key out of the JWK Set. -/
def Event.Spares (kid : String) : Event → Prop
  | .run .. | .activate .. => True
  | .retire k _ | .purge k _ => k ≠ kid
  | .setSchedule .. => False

/-- In every history of these schedules, at times that do not decrease, a key that stopped signing
at `t` is published until its own grace period has passed, unless an operator took it out. -/
def GraceKept (schedules : SigningAlgorithm → Option Schedule) : Prop :=
  ∀ events s kid row t now, system.Path (.configured schedules) events s →
    (events.filterMap Event.time).Pairwise (· ≤ ·) → (∀ x ∈ events.filterMap Event.time, x ≤ now) →
    (∀ e ∈ events, e.Spares kid) → s.keys.lookup kid = some row → row.retiringAt = some t →
    now < t + grace schedules row.algorithm → s.Published kid

/-- A schedule that is written back with the same grace period changes none. -/
theorem grace_withSchedule {schedule : Schedule}
    (h : schedule.val.gracePeriod = grace s.schedules alg) :
    grace (s.withSchedule alg schedule).schedules = grace s.schedules := by
  funext a
  by_cases ha : a = alg
  · subst ha
    simp only [grace, withSchedule, Function.update_self]
    exact h
  · simp [grace, withSchedule, Function.update_of_ne ha]

variable {forced : Bool}

theorem grace_run {generated : Except DomainError NewKey} {r : KeyRotation}
    (h : s.run alg now forced generated = .ok (r, s')) :
    grace s'.schedules = grace s.schedules := by
  have hens : grace (s.withSchedule alg (s.ensureSchedule alg)).schedules =
      grace s.schedules := grace_withSchedule rfl
  -- neither the sweep nor the promotion writes a schedule
  have hmat : (s.matured alg now).schedules =
      (s.withSchedule alg (s.ensureSchedule alg)).schedules := by
    rcases matured_cases s alg now with hcs | ⟨_, _, -, -, -, hcs⟩ <;> rw [hcs] <;> rfl
  rw [← hmat] at hens
  unfold run at h
  simp only at h
  split_ifs at h with hdue
  · simp only [bind_ok, Prod.exists, pure_ok] at h
    obtain ⟨_, staged, hsg, -, rfl⟩ := h
    have hst : staged.schedules = (s.matured alg now).schedules := by
      rcases stage_ok.1 hsg with ⟨-, rfl⟩ | ⟨-, _, -, -, -, rfl⟩ <;> rfl
    rw [grace_withSchedule, hst, hens]
    rw [hst, hens]
    rfl
  · obtain ⟨-, rfl⟩ := Prod.mk.inj (pure_ok.1 h)
    exact hens

theorem grace_apply {e : Event} (he : e.Spares kid) :
    grace (s.apply e).schedules = grace s.schedules := by
  have hap := applied_apply s e
  generalize s.apply e = s' at hap ⊢
  cases hap with
  | run hrun => exact grace_run hrun
  | setSchedule => exact he.elim
  | _ => rfl

/-- The key is published, or its grace period has passed. -/
def Honoured (g : SigningAlgorithm → ℤ) (kid : String) (now : ℤ) (s : State) : Prop :=
  ∀ row t, s.keys.lookup kid = some row → row.retiringAt = some t →
    row.state.isPublished = true ∨ t + g row.algorithm ≤ now

theorem Honoured.apply (hsm : ∀ a b, grace s.schedules a = grace s.schedules b)
    (hs : Sound s.keys) {e : Event} (he : e.Spares kid) (htm : ∀ x ∈ e.time, x ≤ now)
    (h : Honoured (grace s.schedules) kid now s) :
    Honoured (grace s.schedules) kid now (s.apply e) := by
  intro row' t hrow' hret
  have hchg := change_apply hs e kid
  rw [hrow'] at hchg
  generalize hrow : s.keys.lookup kid = row at hchg
  cases hchg with
  | keep => exact h row' t hrow hret
  | @sweep row alg now' t' forced generated hst hstop hlap =>
    obtain rfl := Option.some.inj (hstop.symm.trans hret)
    have hnow : now' ≤ now := htm now' rfl
    have hper := hsm row.algorithm alg
    change _ ≤ _ - grace s.schedules alg at hlap
    refine .inr ?_
    show t' + grace s.schedules row.algorithm ≤ now
    omega
  | supersede => exact .inl rfl
  | mature => exact .inl rfl
  | activate => exact .inl rfl
  | create => nomatch hret
  | retire => exact absurd rfl he
  | purge => exact absurd rfl he

/-- With one grace period for all, every key has its own. -/
theorem graceKept_of_same (hsm : ∀ a b, grace schedules a = grace schedules b) :
    GraceKept schedules := by
  intro _ s kid row t now hp _ htim hsp hrow hret hwi
  have hinv := hp.invariant_of_forall (C := fun e => e.Spares kid ∧ ∀ x ∈ e.time, x ≤ now)
    (I := fun s => Sound s.keys ∧ grace s.schedules = grace schedules ∧
      Honoured (grace schedules) kid now s) ?_ ?_ ⟨sound_nil, rfl, fun _ _ h => nomatch h⟩
  · obtain ⟨hs, -, hhon⟩ := hinv
    refine (published_iff hs).2 ⟨row, hrow, ?_⟩
    exact (hhon row t hrow hret).resolve_right hwi.not_ge
  · rintro _ e _ hst ⟨he, htm⟩ ⟨hs, hgra, hhon⟩
    cases hst
    rw [← hgra] at hsm hhon ⊢
    exact ⟨hs.apply e, grace_apply he, hhon.apply hsm hs he htm⟩
  · intro e he
    exact ⟨hsp e he, fun x hx => htim x (List.mem_filterMap.2 ⟨e, he, hx⟩)⟩

/-! ### A pass of another algorithm -/

variable {key : NewKey}

/-- A pass that has a new key at hand does not fail. -/
theorem exists_run (hfr : (s.matured alg now).keys.lookup key.kid = none) :
    ∃ r, s.run alg now forced (.ok key) = .ok (r, s.apply (.run alg now forced (.ok key))) := by
  obtain ⟨created, staged, hsg⟩ : ∃ created staged,
      (s.matured alg now).stage alg now (.ok key) = .ok (created, staged) := by
    cases hpd : (s.matured alg now).find alg .pending with
    | some kid => exact ⟨kid, _, stage_ok.2 (.inl ⟨hpd, rfl⟩)⟩
    | none => exact ⟨key.kid, _, stage_ok.2 (.inr ⟨hpd, key, rfl, hfr, rfl, rfl⟩)⟩
  have hrun : ∃ r s', s.run alg now forced (.ok key) = .ok (r, s') := by
    unfold run
    simp only
    split_ifs with hdue
    · exact ⟨_, _, bind_ok.2 ⟨(created, staged), hsg, rfl⟩⟩
    · exact ⟨_, _, rfl⟩
  obtain ⟨r, _, hrun⟩ := hrun
  simp [apply, hrun, commit]

/-- A pass takes a key of another algorithm out of the set, by the pass's own grace period. -/
theorem retired_of_run (hs : Sound s.keys) {row : KeyRow} {t : ℤ}
    (hrow : s.keys.lookup kid = some row) (hst : row.state = .retiring)
    (hret : row.retiringAt = some t) (hlap : t + grace s.schedules alg ≤ now)
    (hfr : s.keys.lookup key.kid = none) :
    (s.apply (.run alg now forced (.ok key))).keys.lookup kid = some (row.retire now) := by
  have hcut : t ≤ now - grace s.schedules alg := by omega
  have hswp : (s.swept alg now).keys.lookup kid = some (row.retire now) := by
    have hlap : lapsed (now - (s.ensureSchedule alg).val.gracePeriod) row = true :=
      lapsed_iff.2 ⟨(hs.stamped kid row hrow).signing, hst, t, hret, hcut⟩
    rw [lookup_swept, hrow, Option.map_some, if_pos hlap]
  have hno : ∀ k, s.keys.lookup k = none → (s.swept alg now).keys.lookup k = none := by
    intro _ hk
    rw [lookup_swept, hk, Option.map_none]
  -- the promotion reaches neither
  have hmat : (s.matured alg now).keys.lookup kid = some (row.retire now) ∧
      (s.matured alg now).keys.lookup key.kid = none := by
    rcases matured_cases s alg now with h | ⟨kid', _, hrow', hpd, -, h⟩
    · rw [h]
      exact ⟨hswp, hno _ hfr⟩
    · have hlk' := (hs.swept alg now).sorted.lookup_of_mem hrow'
      rw [h, lookup_promote kid hlk' hpd, lookup_promote key.kid hlk' hpd, hswp, hno _ hfr]
      have hkid : kid ≠ kid' := by
        rintro rfl
        cases hswp.symm.trans hlk'
        cases (is_iff.1 hpd).2.2
      have hact : ¬ (row.retire now).is alg .active = true := by
        intro h
        cases (is_iff.1 h).2.2
      simp [KeyRow.promoted, if_neg hkid, if_neg hact]
  obtain ⟨r, hrun⟩ : ∃ r, s.run alg now forced (.ok key) =
      .ok (r, s.apply (.run alg now forced (.ok key))) := exists_run hmat.2
  rcases keys_run hrun with hks | ⟨-, key', _, hfr', hks⟩
  · rw [hks]
    exact hmat.1
  · have hne : kid ≠ key'.kid := by
      rintro rfl
      rw [hmat.1] at hfr'
      cases hfr'
    rw [hks]
    simp only [withKey, lookup_insert, if_neg hne]
    exact hmat.1

/-- A pass over keys that are all active changes none of them. -/
theorem matured_keys (hact : ∀ e ∈ s.keys, e.2.state = .active) :
    (s.matured alg now).keys = s.keys := by
  have hswp : (s.swept alg now).keys = s.keys := by
    refine (List.map_congr_left fun e he => if_neg fun hlap => ?_).trans (List.map_id _)
    have hst := hact e he
    rw [(lapsed_iff.1 hlap).2.1] at hst
    nomatch hst
  rcases matured_cases s alg now with h | ⟨_, _, hrow, hpd, -, -⟩
  · rw [h, hswp]
  · rw [hswp] at hrow
    have hst := hact _ hrow
    rw [(is_iff.1 hpd).2.2] at hst
    nomatch hst

/-- A forced pass over such keys adds the new key. -/
theorem keys_rotate (hact : ∀ e ∈ s.keys, e.2.state = .active)
    (hfr : s.keys.lookup key.kid = none) :
    (s.apply (.run alg now true (.ok key))).keys =
      s.keys.insert key.kid (key.row alg now (s.find alg .active).isNone) := by
  have hks : (s.matured alg now).keys = s.keys := matured_keys hact
  have hpd : (s.matured alg now).find alg .pending = none := by
    rw [find_eq_none, hks]
    intro e he
    refine Bool.eq_false_of_not_eq_true fun his => ?_
    have hst := hact e he
    rw [(is_iff.1 his).2.2] at hst
    nomatch hst
  have hsg : (s.matured alg now).stage alg now (.ok key) =
      .ok (key.kid, (s.matured alg now).withKey alg now key) :=
    stage_ok.2 (.inr ⟨hpd, key, rfl, by rw [hks, hfr], rfl, rfl⟩)
  obtain ⟨r, hrun⟩ : ∃ r, s.run alg now true (.ok key) =
      .ok (r, ((s.matured alg now).withKey alg now key).withSchedule alg
        ((s.ensureSchedule alg).rotated now)) :=
    ⟨_, bind_ok.2 ⟨_, hsg, rfl⟩⟩
  have hfd : (s.matured alg now).find alg .active = s.find alg .active := by
    simp [find, hks]
  simp [apply, hrun, commit, withSchedule, withKey, hks, hfd]

/-- A key of an algorithm is superseded at once by another. -/
def supersession (algorithm : SigningAlgorithm) : List Event :=
  [.run algorithm 0 true (.ok (newKey "x")), .run algorithm 0 true (.ok (newKey "y")),
    .activate "y" 0]

theorem keys_supersession (schedules : SigningAlgorithm → Option Schedule)
    (alg : SigningAlgorithm) :
    ((supersession alg).foldl apply (.configured schedules)).keys =
      [("x", ((newKey "x").row alg 0 true).supersede 0),
        ("y", ((newKey "y").row alg 0 false).activate 0)] := by
  simp only [supersession, List.foldl_cons]
  generalize hs₁ : apply (.configured schedules) (.run alg 0 true (.ok (newKey "x"))) =
    s₁
  have hks₁ : s₁.keys = [("x", (newKey "x").row alg 0 true)] := by
    rw [← hs₁, keys_rotate (fun e he => absurd he List.not_mem_nil) rfl]
    rfl
  generalize hs₂ : s₁.apply (.run alg 0 true (.ok (newKey "y"))) = s₂
  have hks₂ : s₂.keys = [("x", (newKey "x").row alg 0 true),
      ("y", (newKey "y").row alg 0 false)] := by
    have hac : ∀ e ∈ s₁.keys, e.2.state = .active := by
      rw [hks₁]
      intro _ he
      rw [List.mem_singleton.1 he]
      rfl
    have hfd : (s₁.find alg .active).isNone = false := by
      simp [find, hks₁, KeyRow.is, NewKey.row]
    rw [← hs₂, keys_rotate hac (by rw [hks₁]; rfl), hfd, hks₁]
    rfl
  have hact : ∃ r, s₂.activate "y" 0 = .ok (r, s₂.promote alg "y" 0) := by
    have hrow : s₂.signingKey "y" = some ((newKey "y").row alg 0 false) := by
      rw [signingKey_eq_some, hks₂]
      exact ⟨rfl, rfl⟩
    exact ⟨_, bind_ok.2 ⟨_, okOr_ok.2 hrow, rfl⟩⟩
  obtain ⟨_, hact⟩ := hact
  simp only [apply, hact, commit, promote, hks₂]
  simp [updateWhere, KeyRow.is, NewKey.row]

theorem spares_supersession : ∀ e ∈ supersession alg, e.Spares "x" := by
  intro e he
  simp only [supersession, List.mem_cons, List.not_mem_nil, or_false] at he
  rcases he with rfl | rfl | rfl <;> exact trivial

/-- A key of `b` is superseded; the pass of `a` is when its own grace period has passed. -/
def passOfAnother (schedules : SigningAlgorithm → Option Schedule) (a b : SigningAlgorithm) :
    List Event :=
  supersession b ++ [.run a (grace schedules a) false (.ok (newKey "z"))]

/-- The pass retires the superseded key. -/
theorem retired_passOfAnother (schedules : SigningAlgorithm → Option Schedule)
    (a b : SigningAlgorithm) :
    ((passOfAnother schedules a b).foldl apply (.configured schedules)).keys.lookup "x" =
      some ((((newKey "x").row b 0 true).supersede 0).retire (grace schedules a)) := by
  rw [passOfAnother, List.foldl_append, List.foldl_cons]
  generalize hs₃ : (supersession b).foldl apply (.configured schedules) = s₃
  have hp : system.Path (.configured schedules) (supersession b) s₃ := hs₃ ▸ path_foldl _ _
  have hks : s₃.keys = _ := hs₃ ▸ keys_supersession schedules b
  have hgra : grace s₃.schedules = grace schedules := by
    refine hp.invariant_of_forall (I := fun s => grace s.schedules = grace schedules) ?_
      spares_supersession rfl
    intro _ _ _ hst he hsm
    cases hst
    rw [grace_apply he, hsm]
  refine retired_of_run (sound_of_path hp sound_nil) (by rw [hks]; rfl) rfl rfl ?_
    (by rw [hks]; rfl)
  rw [hgra, zero_add]

/-- The grace period of every key is kept in every history iff the algorithms have the same one. -/
theorem graceKept_iff (schedules : SigningAlgorithm → Option Schedule) :
    GraceKept schedules ↔ ∀ a b, grace schedules a = grace schedules b := by
  refine ⟨fun hkp => ?_, graceKept_of_same⟩
  have hle : ∀ a b, grace schedules b ≤ grace schedules a := by
    intro a b
    by_contra hlt
    have hpos : 0 < grace schedules a := ((schedules a).getD .default).property.grace.1
    have hp := path_foldl (passOfAnother schedules a b) (.configured schedules)
    have hrow := retired_passOfAnother schedules a b
    generalize (passOfAnother schedules a b).foldl apply (.configured schedules) = s
      at hp hrow
    have hpub : s.Published "x" := by
      refine hkp _ s "x" _ 0 (grace schedules a) hp ?_ ?_ ?_ hrow rfl ?_
      · simp [passOfAnother, supersession, Event.time, hpos.le]
      · simp [passOfAnother, supersession, Event.time, hpos.le]
      · intro e he
        rcases List.mem_append.1 he with hbef | hps
        · exact spares_supersession e hbef
        · rw [List.mem_singleton.1 hps]
          trivial
      · rw [zero_add]
        exact not_le.1 hlt
    obtain ⟨_, hrow', hst⟩ := (published_iff (sound_of_path hp sound_nil)).1 hpub
    cases hrow.symm.trans hrow'
    nomatch hst
  exact fun a b => le_antisymm (hle b a) (hle a b)

/-- ES256 keys have an hour of grace, the others the default of seven days. -/
def hourForEs256 : SigningAlgorithm → Option Schedule
  | .es256 => some ⟨⟨seconds 7776000, seconds 900, seconds 3600, none⟩, by decide⟩
  | _ => none

/-- An EdDSA key is superseded at 0 and has seven days of grace; an hour later the ES256 pass takes
it out of the JWK Set. -/
theorem published_for_an_hour :
    let s := (passOfAnother hourForEs256 .es256 .edDsa).foldl State.apply (.configured hourForEs256)
    grace hourForEs256 .edDsa = seconds 604800 ∧
    ((s.keys.lookup "x").map fun row => (row.algorithm, row.retiringAt, row.retiredAt)) =
      some (.edDsa, some 0, some (seconds 3600)) ∧
    ¬ s.Published "x" := by
  intro s
  have hrow : s.keys.lookup "x" =
      some ((((newKey "x").row .edDsa 0 true).supersede 0).retire (seconds 3600)) :=
    retired_passOfAnother hourForEs256 .es256 .edDsa
  have hs : Sound s.keys := sound_of_path (path_foldl _ _) sound_nil
  refine ⟨rfl, by rw [hrow]; rfl, fun hpub => ?_⟩
  obtain ⟨_, hrow', hst⟩ := (published_iff hs).1 hpub
  cases hrow.symm.trans hrow'
  nomatch hst

end Lifecycle

end AsteriusIdp.Keys
