import AsteriusIdp.Lib.Transition

/-!
# Signing in with a passkey

A sign-in spends its challenge, reads the credential, compares the counter of the assertion with the
one it read, and writes the counter or disables the credential.  Each is a statement of its own, so
sign-ins with one passkey overlap, and the counter is written whatever is stored by then.

* `signIns_increase` : the anti-cloning guarantee, for sign-ins that do not overlap between their
  reading and their end.
-/

namespace AsteriusIdp.Passkeys

open Transition

/-- What the counter of an assertion says. -/
inductive SignCount where
  | notSupported
  | advanced (count : ℕ)
  | regressed (presented stored : ℕ)

/-- Compare the counters. -/
def classify (presented stored : ℕ) : SignCount :=
  if presented = 0 ∧ stored = 0 then .notSupported
  else if stored < presented then .advanced presented
  else .regressed presented stored

/-- Only a counter that advanced is written. -/
def SignCount.written : SignCount → Option ℕ
  | .advanced count => some count
  | _ => none

/-- The row of the passkey. -/
structure Passkey where
  signCount : ℕ
  disabled : Bool

/-- The stored counter; a disabled credential is not found. -/
def Passkey.byCredentialId (passkey : Passkey) : Option ℕ :=
  if passkey.disabled then none else some passkey.signCount

/-- Store the counter. -/
def Passkey.recordAssertion (passkey : Passkey) (signCount : Option ℕ) : Passkey :=
  { passkey with signCount := signCount.getD passkey.signCount }

/-- How far a sign-in has come. -/
inductive Phase where
  | issued
  | spent
  | read (stored : ℕ)
  | verified (presented : ℕ) (signCount : SignCount)
  | regressed
  | ended

/-- The passkey, the sign-ins, and the counters that led to a session, the last recorded first. -/
structure State where
  passkey : Passkey
  phase : ℕ → Phase
  sessions : List ℕ

/-- The steps of the sign-ins.  A sign-in may be refused for another reason at any point; the write
of the counter may fail, which does not stop the sign-in, and it may end without a session. -/
inductive Event where
  | spend (id : ℕ)
  | read (id : ℕ)
  | verify (id presented : ℕ)
  | record (id : ℕ) (written signedIn : Bool)
  | disable (id : ℕ)
  | refuse (id : ℕ)

/-- Challenges are out. -/
def State.init (signCount : ℕ) : State :=
  { passkey := { signCount, disabled := false }, phase := fun _ => .issued, sessions := [] }

/-- Go on with a request. -/
def State.move (s : State) (id : ℕ) (phase : Phase) : State :=
  { s with phase := Function.update s.phase id phase }

/-- A sign-in ends, with this effect. -/
def State.close (s : State) (id : ℕ) (passkey : Passkey) (sessions : List ℕ) : State :=
  { passkey, sessions, phase := Function.update s.phase id .ended }

/-- What was read. -/
def found : Option ℕ → Phase
  | some stored => .read stored
  | none => .ended

/-- A regression is refused: the policy is to block. -/
def verify (presented stored : ℕ) : Phase :=
  match classify presented stored with
  | .regressed _ _ => .regressed
  | signCount => .verified presented signCount

/-- The state after an event. -/
def State.apply (s : State) : Event → Option State
  | .spend id =>
    match s.phase id with
    | .issued => some (s.move id .spent)
    | _ => none
  | .read id =>
    match s.phase id with
    | .spent => some (s.move id (found s.passkey.byCredentialId))
    | _ => none
  | .verify id presented =>
    match s.phase id with
    | .read stored => some (s.move id (verify presented stored))
    | _ => none
  | .record id written signedIn =>
    match s.phase id with
    | .verified presented signCount =>
      some (s.close id
        (if written then s.passkey.recordAssertion signCount.written else s.passkey)
        (if signedIn then presented :: s.sessions else s.sessions))
    | _ => none
  | .disable id =>
    match s.phase id with
    | .regressed => some (s.close id { s.passkey with disabled := true } s.sessions)
    | _ => none
  | .refuse id => some (s.move id .ended)

/-- The sign-in has read the credential and has not ended. -/
def Phase.holds : Phase → Bool
  | .read _ | .verified _ _ | .regressed => true
  | _ => false

/-- No sign-in reads the credential while another one holds it, and the counter is written.  An
authenticator that counts does not present zero. -/
def Event.Alone (s : State) : Event → Prop
  | .read _ => ∀ other, (s.phase other).holds = false
  | .verify _ presented => 0 < presented
  | .record _ written _ => written = true
  | _ => True

/-- The sign-ins with one passkey. -/
def signIns : System State Event := .ofPartial State.apply

/-- What a sign-in knows of the passkey is so. -/
def Phase.Fits (passkey : Passkey) : Phase → Prop
  | .read stored => passkey = { signCount := stored, disabled := false }
  | .verified presented signCount =>
    signCount = .advanced presented ∧ passkey.signCount < presented ∧ passkey.disabled = false
  | _ => True

/-- The invariant of sign-ins. -/
structure Sound (s : State) : Prop where
  alone : ∀ i j, (s.phase i).holds = true → (s.phase j).holds = true → i = j
  fits : ∀ i, (s.phase i).Fits s.passkey
  increasing : s.sessions.Pairwise (· > ·)
  bounded : ∀ count ∈ s.sessions, count ≤ s.passkey.signCount

variable {s s' : State} {id : ℕ}

theorem verify_fits {presented stored : ℕ} (hco : 0 < presented) :
    (verify presented stored).Fits { signCount := stored, disabled := false } := by
  unfold verify classify
  rw [if_neg (by omega)]
  split_ifs with hlt
  · exact ⟨rfl, hlt, rfl⟩
  · trivial

theorem Sound.move (h : Sound s) {phase : Phase} (hft : phase.Fits s.passkey)
    (haln : phase.holds = true → ∀ other, (s.phase other).holds = true → other = id) :
    Sound (s.move id phase) := by
  refine ⟨fun i j hi hj => ?_, fun i => ?_, h.increasing, h.bounded⟩
  · simp only [State.move] at hi hj
    have := h.alone i j
    grind
  · simp only [State.move, Function.update_apply]
    split_ifs
    · exact hft
    · exact h.fits i

/-- The sign-in that holds the passkey may change it: no other one knows anything of it. -/
theorem Sound.close (h : Sound s) (hhl : (s.phase id).holds = true) {passkey : Passkey}
    {sessions : List ℕ} (hin : sessions.Pairwise (· > ·))
    (hbdd : ∀ count ∈ sessions, count ≤ passkey.signCount) :
    Sound (s.close id passkey sessions) := by
  have hfr : ∀ i, ((s.close id passkey sessions).phase i).holds = false := by
    intro i
    simp only [State.close, Function.update_apply]
    split_ifs with heq
    · rfl
    · exact Bool.eq_false_iff.2 fun hi => heq (h.alone i id hi hhl)
  refine ⟨fun i _ hi => ?_, fun i => ?_, hin, hbdd⟩
  · cases (hfr i).symm.trans hi
  · have hi := hfr i
    revert hi
    cases (s.close id passkey sessions).phase i <;> first | exact fun _ => trivial | exact nofun

/-- What a step leaves of the guarantee, seen from an earlier state. -/
structure Guards (s s' : State) : Prop where
  sound : Sound s'
  mono : s.passkey.signCount ≤ s'.passkey.signCount
  blocked : s.passkey.disabled = true → s'.passkey.disabled = true ∧ s'.sessions = s.sessions

theorem Sound.step {event : Event} (h : Sound s) (hst : s.apply event = some s')
    (haln : event.Alone s) : Guards s s' := by
  have hft := h.fits
  cases event with
  | spend =>
    simp only [State.apply] at hst
    split at hst <;> cases hst
    exact ⟨h.move trivial nofun, le_rfl, fun hd => ⟨hd, rfl⟩⟩
  | read =>
    simp only [State.apply] at hst
    split at hst <;> cases hst
    refine ⟨h.move ?_ fun _ other hoth => ?_, le_rfl, fun hd => ⟨hd, rfl⟩⟩
    · unfold Passkey.byCredentialId
      split_ifs with hdis
      · trivial
      · simp only [found, Phase.Fits]
        rw [← Bool.eq_false_iff.2 hdis]
    · cases (haln other).symm.trans hoth
  | verify id =>
    simp only [State.apply] at hst
    split at hst <;> cases hst
    next stored hrd =>
    have hps := hft id
    rw [hrd] at hps
    refine ⟨h.move ?_ fun _ other hoth => h.alone other id hoth (by rw [hrd]; rfl), le_rfl,
      fun hd => ⟨hd, rfl⟩⟩
    rw [show s.passkey = _ from hps]
    exact verify_fits haln
  | record id written =>
    simp only [State.apply] at hst
    split at hst <;> cases hst
    next presented signCount hvd =>
    obtain rfl : written = true := haln
    have hps := hft id
    rw [hvd] at hps
    obtain ⟨rfl, hlt, hena⟩ := hps
    have hse : ∀ count ∈ s.sessions, count < presented :=
      fun count hcnt => (h.bounded count hcnt).trans_lt hlt
    refine ⟨h.close (by rw [hvd]; rfl) ?_ ?_, hlt.le, fun hd => ?_⟩
    · split_ifs
      · exact List.pairwise_cons.2 ⟨hse, h.increasing⟩
      · exact h.increasing
    · intro count hcnt
      have : count = presented ∨ count ∈ s.sessions := by
        split_ifs at hcnt
        · exact List.mem_cons.1 hcnt
        · exact .inr hcnt
      exact this.elim Eq.le fun hmem => (hse count hmem).le
    · cases hena.symm.trans hd
  | disable =>
    simp only [State.apply] at hst
    split at hst <;> cases hst
    next hre =>
    exact ⟨h.close (by rw [hre]; rfl) h.increasing h.bounded, le_rfl, fun _ => ⟨rfl, rfl⟩⟩
  | refuse =>
    cases hst
    exact ⟨h.move trivial nofun, le_rfl, fun hd => ⟨hd, rfl⟩⟩

theorem Guards.of_path {events : List Event} (hs : Sound s)
    (h : (signIns.restrict fun s event => event.Alone s).Path s events s') : Guards s s' := by
  refine h.invariant (I := Guards s) (fun s₁ event s₂ hst hgd => ?_)
    ⟨hs, le_rfl, fun hd => ⟨hd, rfl⟩⟩
  have hnx := hgd.sound.step hst.1 hst.2
  refine ⟨hnx.sound, hgd.mono.trans hnx.mono, fun hd => ?_⟩
  obtain ⟨hd₁, hsm⟩ := hgd.blocked hd
  exact (hnx.blocked hd₁).imp_right (·.trans hsm)

theorem sound_init (signCount : ℕ) : Sound (.init signCount) :=
  ⟨nofun, fun _ => trivial, .nil, nofun⟩

/-- **A counter is used once.**  In every run whose steps are alone, the stored counter never
decreases, the counters that led to a session strictly increase in the order they were recorded, and
once the credential is disabled no assertion signs in. -/
theorem signIns_increase {signCount : ℕ} {events events' : List Event}
    (h : (signIns.restrict fun s event => event.Alone s).Path (.init signCount) events s)
    (h' : (signIns.restrict fun s event => event.Alone s).Path s events' s') :
    s.passkey.signCount ≤ s'.passkey.signCount ∧ s'.sessions.Pairwise (· > ·) ∧
    (s.passkey.disabled = true → s'.sessions = s.sessions) := by
  have hgd := Guards.of_path (Guards.of_path (sound_init signCount) h).sound h'
  exact ⟨hgd.mono, hgd.sound.increasing, fun hd => (hgd.blocked hd).2⟩

/-- Two sign-ins count, and a third one repeats a counter and disables the passkey. -/
def regressedRun : List Event :=
  [.spend 0, .read 0, .verify 0 1, .record 0 true true, .spend 1, .read 1, .verify 1 2,
    .record 1 true true, .spend 2, .read 2, .verify 2 2, .disable 2]

/-- Where that leads. -/
def regressedState : State := (regressedRun.foldlM State.apply (.init 0)).getD (.init 0)

theorem signIns_increase_regressed :
    (signIns.restrict fun s event => event.Alone s).Path (.init 0) regressedRun regressedState ∧
    regressedState.sessions = [2, 1] ∧ regressedState.passkey.disabled = true ∧
    ∃ s', (signIns.restrict fun s event => event.Alone s).Path regressedState
        [.spend 3, .read 3] s' ∧
      regressedState.passkey.signCount ≤ s'.passkey.signCount ∧ s'.sessions.Pairwise (· > ·) ∧
      s'.sessions = regressedState.sessions := by
  have hp : (signIns.restrict fun s event => event.Alone s).Path (.init 0) regressedRun
      regressedState :=
    .cons ⟨rfl, trivial⟩ <| .cons ⟨rfl, fun i => by rcases i with _ | _ <;> rfl⟩ <|
    .cons ⟨rfl, Nat.one_pos⟩ <| .cons ⟨rfl, rfl⟩ <| .cons ⟨rfl, trivial⟩ <|
    .cons ⟨rfl, fun i => by rcases i with _ | _ | _ <;> rfl⟩ <| .cons ⟨rfl, Nat.two_pos⟩ <|
    .cons ⟨rfl, rfl⟩ <| .cons ⟨rfl, trivial⟩ <|
    .cons ⟨rfl, fun i => by rcases i with _ | _ | _ | _ <;> rfl⟩ <| .cons ⟨rfl, Nat.two_pos⟩ <|
    .cons ⟨rfl, trivial⟩ <| .nil _
  have hp' : (signIns.restrict fun s event => event.Alone s).Path regressedState
      [.spend 3, .read 3] ((regressedState.move 3 .spent).move 3 .ended) :=
    .cons ⟨rfl, trivial⟩ <|
    .cons ⟨rfl, fun i => by rcases i with _ | _ | _ | _ | _ <;> rfl⟩ <| .nil _
  obtain ⟨hmono, hinc, hdis⟩ := signIns_increase hp hp'
  exact ⟨hp, rfl, rfl, _, hp', hmono, hinc, hdis rfl⟩

/-- Two sign-ins that read the credential before either writes use one counter twice. -/
theorem counter_used_twice : ∃ s, signIns.Path (.init 0)
    [.spend 0, .spend 1, .read 0, .read 1, .verify 0 1, .verify 1 1, .record 0 true true,
      .record 1 true true] s ∧ s.sessions = [1, 1] :=
  ⟨_, .of_foldlM rfl, rfl⟩

end AsteriusIdp.Passkeys
