import AsteriusIdp.Lib.Run
import AsteriusIdp.Outbox.Fencing

/-!
# Progress of the outbox

Infinite runs of writers and workers, in which some worker keeps polling, the clock advances and
every attempt ends.  A claim spends an attempt, and only an acknowledgement closes a row, so that a
row is lost once its last attempt is: nothing claims it again, and it is still owed.

* `Tracked` : the claims in the workers' hands agree with the rows.
* `Stuck` : the budget is spent and nobody holds the last attempt; it stays so.
* `Covered` : a spent budget has a holder; steps that lose no last attempt keep it so.
* `settles_iff` : in a fair run every row settles iff every step is safe.
-/

namespace AsteriusIdp.Outbox

open Transition Filter Entries State

variable {config : Config} {s : State} {e : Event} {id : ℕ}

/-! ### Steps -/

/-- The instant that a step reads from the clock. -/
def Event.time : Event → Option ℤ
  | .enqueue _ _ _ now | .poll _ _ now _ | .requeue _ _ now => some now
  | .ack _ outcome => some outcome.at_
  | .crash _ => none

/-- The steps of writers and workers: a new row has a new identifier, and a claim ends once, with
what its attempt came to or with a crash. -/
inductive Proper (s : State) : Event → Prop
  | enqueue {id : ℕ} {tenant : String} {entry : NewOutboxEntry} {now : ℤ} :
    s.rows.lookup id = none → Proper s (.enqueue id tenant entry now)
  | poll (worker : String) (limit : ℕ) (now : ℤ) (locked : List ℕ) :
    Proper s (.poll worker limit now locked)
  | ack {h : Held} {outcome : Outcome} :
    h ∈ s.held → outcome.Reported h.event → Proper s (.ack h outcome)
  | crash {h : Held} : h ∈ s.held → Proper s (.crash h)

/-- No row without a budget, and no crash in a last attempt. -/
def Event.Safe : Event → Prop
  | .enqueue _ _ entry _ => entry.maxAttempts ≠ some 0
  | .crash h => h.event.isFinalAttempt = false
  | _ => True

/-- The outbox with its writers and workers. -/
def working (config : Config) : System State Event := (system config).restrict Proper

/-! ### What a step does to a row and to the claims -/

variable {row : Row} {h : Held} {events : List Event} {limit n : ℕ} {locked : List ℕ}

/-- Only what is owed is taken. -/
theorem owed_of_chosen {now : ℤ}
    (h : (id, row) ∈ s.chosen limit now locked) : row.status.owed = true := by
  obtain ⟨-, hst, -⟩ := due_iff.1 (mem_chosen h).2.1
  rcases hst with hpd | hfa | ⟨hcld, -⟩
  · exact hpd ▸ rfl
  · exact hfa ▸ rfl
  · exact hcld ▸ rfl

theorem before_trans (x y z : ℕ × Row) (hxy : before x y = true)
    (hyz : before y z = true) : before x z = true := by
  simp only [before, Bool.or_eq_true, Bool.and_eq_true, decide_eq_true_eq] at hxy hyz ⊢
  omega

theorem before_total (x y : ℕ × Row) : (before x y || before y x) = true := by
  simp only [before, Bool.or_eq_true, Bool.and_eq_true, decide_eq_true_eq]
  omega

/-- While a row can be taken, a poll takes one that has been available at least as long. -/
theorem exists_chosen {now : ℤ} (hrow : (id, row) ∈ s.rows)
    (hdue : s.due now (id, row) = true) (hlk : id ∉ locked) (hlim : 0 < limit) :
    ∃ entry ∈ s.chosen limit now locked, entry.2.availableAt ≤ row.availableAt := by
  unfold chosen
  have hso := List.pairwise_mergeSort before_trans before_total
    (s.rows.filter fun entry => s.due now entry && entry.1 ∉ locked)
  have hmem : (id, row) ∈ (s.rows.filter fun entry =>
      s.due now entry && entry.1 ∉ locked).mergeSort before := by
    rw [List.mem_mergeSort, List.mem_filter]
    exact ⟨hrow, by simp [hdue, hlk]⟩
  cases hls : (s.rows.filter fun entry =>
      s.due now entry && entry.1 ∉ locked).mergeSort before with
  | nil =>
    rw [hls] at hmem
    nomatch hmem
  | cons first rest =>
    rw [hls] at hmem hso
    obtain ⟨limit, rfl⟩ := Nat.exists_eq_succ_of_ne_zero hlim.ne'
    refine ⟨first, List.mem_cons_self, ?_⟩
    rcases List.mem_cons.1 hmem with rfl | hrs
    · exact le_rfl
    · have hbef := List.rel_of_pairwise_cons hso hrs
      simp only [before, Bool.or_eq_true, Bool.and_eq_true, decide_eq_true_eq] at hbef
      omega

variable {event : OutboxEvent} {outcome : Outcome}

/-- What a row waits for is not brought forward to before the attempt. -/
theorem le_availableAt_settle {T : ℤ} (hlat : T < outcome.at_)
    (hle : (row.settle config event outcome).availableAt ≤ T) : row.availableAt ≤ T := by
  have hdel := config.backoff.delay_nonneg event.attempt event.id
  have hcas : (row.settle config event outcome).availableAt = row.availableAt ∨
      (row.settle config event outcome).availableAt =
        outcome.at_ + config.backoff.delay event.attempt event.id := by
    unfold Row.settle
    rcases outcome with ⟨_ | _ | _ | _ | _, _, _⟩ <;> simp only <;> split_ifs <;> simp [Row.release]
  rcases hcas with h | h <;> omega

theorem Change.same {row' : Row} (h : Change config s id (some row) e (some row'))
    (hpr : Proper s e) : row'.tenant = row.tenant ∧ row'.maxAttempts = row.maxAttempts := by
  cases h with
  | keep => exact ⟨rfl, rfl⟩
  | claim => exact ⟨rfl, rfl⟩
  | settle => exact ⟨tenant_settle .., maxAttempts_settle ..⟩
  | requeue => nomatch hpr

/-- The budget is a 32-bit number, and a claimed row has a lease. -/
structure Row.Kept (row : Row) : Prop where
  bounded : row.maxAttempts < 2 ^ 31
  leased : row.status = .claimed → ∃ expires, row.claimExpiresAt = some expires

theorem Change.kept {row : Option Row} {row' : Row} (h : Change config s id row e (some row'))
    (hpr : Proper s e) (hrow : ∀ r ∈ row, r.Kept) : row'.Kept := by
  cases h with
  | keep => exact hrow _ rfl
  | enqueue tenant entry =>
    refine ⟨?_, fun hcld => nomatch hcld⟩
    unfold NewOutboxEntry.row
    cases entry.maxAttempts with
    | none => exact (by decide : 10 < 2 ^ 31)
    | some => exact Nat.lt_of_le_of_lt (Nat.min_le_right _ _) (by decide)
  | claim _ => exact ⟨(hrow _ rfl).bounded, fun _ => ⟨_, rfl⟩⟩
  | settle _ _ =>
    refine ⟨?_, fun hcld => absurd hcld (settle_not_claimed _ _ _)⟩
    rw [maxAttempts_settle]
    exact (hrow _ rfl).bounded
  | requeue => nomatch hpr

/-- A claim is in hand when it was and the step does not end it, or when a poll takes it. -/
theorem mem_held_apply : h ∈ (s.apply config e).held ↔
    (h ∈ s.held ∧ (∀ outcome, e ≠ .ack h outcome) ∧ e ≠ .crash h) ∨
      ∃ worker limit now locked entry, e = .poll worker limit now locked ∧
      entry ∈ s.chosen limit now locked ∧
      h = ⟨worker, (entry.2.claim worker (now + config.lease)).event entry.1⟩ := by
  cases e with
  | enqueue i tenant entry now =>
    have hhd : (s.apply config (.enqueue i tenant entry now)).held = s.held := by
      simp only [apply, enqueue]
      split <;> rfl
    simp [hhd]
  | poll worker limit now locked =>
    constructor
    · intro hh
      rcases List.mem_append.1 hh with hold | hnew
      · exact .inl ⟨hold, by simp, by simp⟩
      · obtain ⟨entry, hent, rfl⟩ := List.mem_map.1 hnew
        exact .inr ⟨worker, limit, now, locked, entry, rfl, hent, rfl⟩
    · rintro (⟨hold, -⟩ | ⟨_, _, _, _, entry, ⟨⟩, hent, rfl⟩)
      · exact List.mem_append_left _ hold
      · exact List.mem_append_right _ (List.mem_map.2 ⟨entry, hent, rfl⟩)
  | ack h' outcome =>
    have hhd : (s.apply config (.ack h' outcome)).held = s.held.filter (· ≠ h') := by
      simp only [apply, State.ack]
      split <;> rfl
    simp [hhd, @eq_comm _ h' h]
  | crash h' => simp [apply, drop, @eq_comm _ h' h]
  | requeue tenant i now =>
    have hhd : (s.apply config (.requeue tenant i now)).held = s.held := by
      simp only [apply, requeue]
      split <;> first | rfl | split_ifs <;> rfl
    simp [hhd]

theorem handed_apply (hh : h ∈ s.handed) : h ∈ (s.apply config e).handed := by
  cases e with
  | enqueue =>
    simp only [apply, enqueue]
    split <;> exact hh
  | poll => exact List.mem_append_left _ hh
  | ack =>
    simp only [apply, State.ack]
    split <;> exact hh
  | crash => exact hh
  | requeue =>
    simp only [apply, requeue]
    split <;> first | exact hh | split_ifs <;> exact hh

/-! ### The claims agree with the rows -/

/-- Every claim in hand was handed out, is of its row, and is of a claimed row while it is of the
row's current attempt. -/
structure Tracked (s : State) : Prop where
  fenced : Fenced s
  kept : ∀ id, ∀ row ∈ s.rows.lookup id, row.Kept
  handed : ∀ h ∈ s.held, h ∈ s.handed
  held : ∀ h ∈ s.held, ∃ row ∈ s.rows.lookup h.event.id, h.event.tenant = row.tenant ∧
    h.event.maxAttempts = row.maxAttempts ∧ (h.event.attempt = row.attempts → row.status = .claimed)

theorem tracked_init : Tracked .init :=
  ⟨fenced_init, by simp [init], by simp [init], by simp [init]⟩

namespace Tracked

variable (hs : Tracked s)
include hs

theorem eq_of_key {h h' : Held} (hh : h ∈ s.held) (hh' : h' ∈ s.held) (hkey : h.key = h'.key) :
    h = h' :=
  List.inj_on_of_nodup_map hs.fenced.handed_once (hs.handed h hh) (hs.handed h' hh') hkey

/-- The holder of the current attempt of a row can acknowledge it. -/
theorem current_of_held {h : Held} (hh : h ∈ s.held) {row : Row}
    (hrow : s.rows.lookup h.event.id = some row) (hatt : h.event.attempt = row.attempts) :
    s.current h.event = some row := by
  obtain ⟨_, hrow', hten, -, hcld⟩ := hs.held h hh
  rw [hrow] at hrow'
  cases hrow'
  exact current_eq_some.2 ⟨hrow, hten.symm, hcld hatt, hatt.symm⟩

theorem apply (hpr : Proper s e) : Tracked (s.apply config e) := by
  have hchg := change_apply config hs.fenced.sorted e
  refine ⟨hs.fenced.apply e, ?_, ?_, ?_⟩
  · intro id row hrow
    have hrow' := hchg id
    rw [Option.mem_def.1 hrow] at hrow'
    exact hrow'.kept hpr (hs.kept id)
  · intro h hh
    rcases mem_held_apply.1 hh with ⟨hold, -, -⟩ |
      ⟨worker, limit, now, locked, entry, rfl, hent, rfl⟩
    · exact handed_apply (hs.handed h hold)
    · exact List.mem_append_right _ (List.mem_map.2 ⟨entry, hent, rfl⟩)
  · intro h hh
    rcases mem_held_apply.1 hh with ⟨hold, hack, -⟩ |
      ⟨_, _, _, _, _, rfl, hent, rfl⟩
    · obtain ⟨_, hrow, hten, hmax, hcld⟩ := hs.held h hold
      have hrow' := hchg h.event.id
      rw [Option.mem_def.1 hrow] at hrow'
      obtain ⟨row', heq, -, -⟩ := hrow'.advance
      rw [Option.mem_def.1 heq] at hrow'
      refine ⟨row', heq, hten.trans (hrow'.same hpr).1.symm,
        hmax.trans (hrow'.same hpr).2.symm, fun hatt => ?_⟩
      cases hrow' with
      | keep => exact hcld hatt
      | claim => rfl
      | @settle _ h' outcome hid hcur =>
        -- the acknowledged claim has the key of this one, and this one is still in hand
        obtain ⟨-, -, -, hcnt⟩ := current_eq_some.1 hcur
        rw [attempts_settle, hcnt] at hatt
        cases hpr with
        | ack hh' =>
          obtain rfl := hs.eq_of_key hold hh' (Prod.ext hid.symm hatt)
          exact absurd rfl (hack outcome)
      | requeue => nomatch hpr
    · exact ⟨_, lookup_claim hs.fenced.sorted hent, rfl, rfl, fun _ => rfl⟩

end Tracked

/-! ### Lost rows -/

/-- The budget of a row that is owed is spent, and nobody holds its last attempt. -/
def Stuck (id : ℕ) (s : State) : Prop :=
  ∃ row ∈ s.rows.lookup id, row.status.owed = true ∧ row.maxAttempts ≤ row.attempts ∧
    ∀ h ∈ s.held, h.key ≠ (id, row.attempts)

/-- Nothing gets a lost row back. -/
theorem Stuck.apply (hsk : Stuck id s) (hs : Tracked s) (hpr : Proper s e) :
    Stuck id (s.apply config e) := by
  obtain ⟨row, hrow, how, hsp, hfr⟩ := hsk
  have hchg := change_apply config hs.fenced.sorted e id
  rw [Option.mem_def.1 hrow] at hchg
  -- a row without budget is not taken
  have htak : ∀ {limit now locked}, (id, row) ∉ s.chosen limit now locked := fun hch =>
    absurd (due_iff.1 (mem_chosen hch).2.1).2.2.1 hsp.not_gt
  generalize hrow' : (s.apply config e).rows.lookup id = row' at hchg
  cases hchg with
  | keep =>
    refine ⟨row, hrow', how, hsp, fun h hh hkey => ?_⟩
    rcases mem_held_apply.1 hh with ⟨hold, -, -⟩ |
      ⟨_, _, _, _, entry, rfl, hent, rfl⟩
    · exact hfr h hold hkey
    · obtain ⟨hid, -⟩ := Prod.mk.inj hkey
      have hsm := hs.fenced.sorted.lookup_of_mem (mem_chosen hent).1
      rw [show entry.1 = id from hid, Option.mem_def.1 hrow] at hsm
      rw [show entry = (id, row) from Prod.ext hid (Option.some.inj hsm).symm] at hent
      exact htak hent
  | claim hch => exact absurd hch htak
  | @settle _ h outcome hid hcur =>
    cases hpr with
    | ack hh => exact absurd (Prod.ext hid (current_eq_some.1 hcur).2.2.2.symm) (hfr h hh)
  | requeue => nomatch hpr

/-- An unsafe step loses a row. -/
theorem stuck_of_not_safe (hs : Tracked s) (hpr : Proper s e) (hsf : ¬ e.Safe) :
    ∃ id, Stuck id (s.apply config e) := by
  cases hpr with
  | @enqueue id tenant entry now hfr =>
    have hz : entry.maxAttempts = some 0 := of_not_not hsf
    have hrow : (s.apply config (.enqueue id tenant entry now)).rows.lookup id =
        some (entry.row tenant now) := by
      simp [apply, enqueue, hfr]
    refine ⟨id, _, hrow, rfl, ?_, fun h hh hkey => ?_⟩
    · simp only [NewOutboxEntry.row, hz]
      decide
    · rcases mem_held_apply.1 hh with ⟨hold, -, -⟩ | ⟨_, _, _, _, _, hpo, -⟩
      · obtain ⟨row, hhd, -⟩ := hs.held h hold
        rw [(Prod.mk.inj hkey).1, hfr] at hhd
        cases hhd
      · cases hpo
  | poll => exact absurd trivial hsf
  | ack => exact absurd trivial hsf
  | @crash h hh =>
    have hfin : h.event.maxAttempts ≤ h.event.attempt := by
      simpa [Event.Safe, OutboxEvent.isFinalAttempt] using hsf
    obtain ⟨row, hrow, -, hmax, hcld⟩ := hs.held h hh
    obtain ⟨row', hrow', hre⟩ := hs.fenced.reached h (hs.handed h hh)
    obtain rfl := Option.mem_unique hrow hrow'
    have hwi := hs.fenced.within _ row hrow
    have hatt : h.event.attempt = row.attempts := by omega
    refine ⟨h.event.id, row, hrow, ?_, by omega, fun h' hh' hkey => ?_⟩
    · rw [hcld hatt]
      rfl
    · obtain ⟨hold, hne⟩ := List.mem_filter.1 hh'
      refine of_decide_eq_true hne (hs.eq_of_key hold hh ?_)
      rw [hkey, ← hatt]
      rfl

/-! ### Spent budgets -/

/-- The last attempt of a row that is owed is in somebody's hands. -/
def Covered (s : State) : Prop :=
  ∀ id, ∀ row ∈ s.rows.lookup id, row.status.owed = true → row.maxAttempts ≤ row.attempts →
    ∃ h ∈ s.held, h.key = (id, row.attempts)

theorem reported_retry (h : outcome.Reported event)
    (hret : outcome.verdict.status.owed = true) : event.attempt < event.maxAttempts := by
  cases h with
  | failed =>
    by_contra hfin
    have hla : event.isFinalAttempt = true := decide_eq_true (not_lt.1 hfin)
    simp [Outcome.failed, hla, Verdict.status, Status.owed] at hret
  | _ => nomatch hret

theorem Covered.apply (hcov : Covered s) (hs : Tracked s) (hpr : Proper s e)
    (hsf : e.Safe) : Covered (s.apply config e) := by
  intro id row' hrow' how hsp
  have hchg := change_apply config hs.fenced.sorted e id
  rw [Option.mem_def.1 hrow'] at hchg
  generalize hrow : s.rows.lookup id = row at hchg
  cases hchg with
  | keep =>
    obtain ⟨h, hh, hkey⟩ := hcov id row' hrow how hsp
    obtain ⟨hid, hatt⟩ := Prod.mk.inj hkey
    obtain ⟨row, hhd, -, hmax, -⟩ := hs.held h hh
    rw [hid, Option.mem_def, hrow] at hhd
    cases hhd
    refine ⟨h, mem_held_apply.2 (.inl ⟨hh, ?_, ?_⟩), hkey⟩
    · rintro outcome rfl
      -- the acknowledgement takes effect, so that the row is no longer claimed
      have hcur := hs.current_of_held hh (hid ▸ hrow) hatt
      have hset : (s.apply config (.ack h outcome)).rows.lookup id =
          some (row'.settle config h.event outcome) := by
        simp [apply, drop, State.ack, hcur, hid]
      rw [Option.mem_def.1 hrow'] at hset
      have hcld := (current_eq_some.1 hcur).2.2.1
      rw [Option.some.inj hset] at hcld
      exact settle_not_claimed _ _ _ hcld
    · rintro rfl
      have hla : h.event.isFinalAttempt = true := decide_eq_true (by omega)
      exact Bool.false_ne_true (hsf.symm.trans hla)
  | enqueue tenant entry now =>
    have hbu : 0 < (entry.row tenant now).maxAttempts := by
      have hne : entry.maxAttempts ≠ some 0 := hsf
      unfold NewOutboxEntry.row
      cases hmax : entry.maxAttempts with
      | none => exact (by decide : 0 < 10)
      | some budget =>
        have hpos : budget ≠ 0 := fun hz => hne (hz ▸ hmax)
        exact Nat.lt_min.2 ⟨Nat.pos_of_ne_zero hpos, by decide⟩
    exact absurd hsp hbu.not_ge
  | @claim row worker limit now locked hch =>
    exact ⟨_, List.mem_append_right _ (List.mem_map.2 ⟨_, hch, rfl⟩), rfl⟩
  | @settle row h outcome hid hcur =>
    cases hpr with
    | ack hh hrep =>
      rw [status_settle] at how
      rw [maxAttempts_settle, attempts_settle] at hsp
      obtain ⟨hlk, -, -, hatt⟩ := current_eq_some.1 hcur
      obtain ⟨row', hhd, -, hmax, -⟩ := hs.held h hh
      rw [Option.mem_def, hlk] at hhd
      cases hhd
      have hret := reported_retry hrep how
      omega
  | requeue => cases hpr

/-! ### Along a run -/

/-- Some worker keeps polling without finding a given row locked, the clock advances, and every
attempt ends. -/
structure Fair (run : (working config).Run) : Prop where
  polls : ∀ id, ∃ᶠ n in atTop, ∃ worker limit now locked,
    run.label n = .poll worker limit now locked ∧ 0 < limit ∧ id ∉ locked
  advances : ∀ T, ∀ᶠ n in atTop, ∀ t ∈ (run.label n).time, T < t
  ends : ∀ n, ∀ h ∈ (run.state n).held, ∃ m ≥ n, h ∉ (run.state m).held

/-- The attempts of a row so far. -/
def State.attempts (s : State) (id : ℕ) : ℕ := (s.rows.lookup id).elim 0 Row.attempts

section Run

variable {run : (working config).Run}

theorem state_succ (n : ℕ) : run.state (n + 1) = (run.state n).apply config (run.label n) :=
  (Option.some.inj (run.step n).1).symm

theorem proper_label (n : ℕ) : Proper (run.state n) (run.label n) := (run.step n).2

variable (hinit : run.state 0 = .init)
include hinit

theorem tracked_run (n : ℕ) : Tracked (run.state n) := by
  refine run.invariant (hinit ▸ tracked_init) ?_ n
  intro _ _ _ hst hs
  cases hst.1
  exact hs.apply hst.2

theorem change_run (n id : ℕ) : Change config (run.state n) id ((run.state n).rows.lookup id)
    (run.label n) ((run.state (n + 1)).rows.lookup id) := by
  rw [state_succ]
  exact change_apply config (tracked_run hinit n).fenced.sorted _ id

theorem attempts_le_succ (n id : ℕ) :
    (run.state n).attempts id ≤ (run.state (n + 1)).attempts id := by
  have hchg := change_run hinit n id
  unfold attempts
  cases hrow : (run.state n).rows.lookup id with
  | none => exact Nat.zero_le _
  | some =>
    rw [hrow] at hchg
    obtain ⟨_, hrow', hle, -⟩ := hchg.advance
    rw [Option.mem_def.1 hrow']
    exact hle

/-- The attempts of a row come to an end. -/
theorem attempts_rest (id : ℕ) :
    ∃ N, ∀ n ≥ N, (run.state n).attempts id = (run.state N).attempts id := by
  refine exists_forall_ge_eq (b := 2 ^ 31) (monotone_nat_of_le_succ (attempts_le_succ hinit · id))
    fun n => ?_
  have hs := tracked_run hinit n
  unfold attempts
  cases hrow : (run.state n).rows.lookup id with
  | none => exact Nat.zero_le _
  | some row => exact (hs.fenced.within id row hrow).trans (hs.kept id row hrow).bounded.le

variable {n m N : ℕ}

/-- No row is removed. -/
theorem present_of_le {id : ℕ} (hnm : n ≤ m) (h : ∃ row, row ∈ (run.state n).rows.lookup id) :
    ∃ row, row ∈ (run.state m).rows.lookup id := by
  refine run.of_le (I := fun s => ∃ row, row ∈ s.rows.lookup id) hnm h ?_
  rintro k - ⟨_, hrow⟩
  have hchg := change_run hinit k id
  rw [Option.mem_def.1 hrow] at hchg
  obtain ⟨row', hrow', -⟩ := hchg.advance
  exact ⟨row', hrow'⟩

/-- A row that is no longer owed stays so. -/
theorem settled_of_le {id : ℕ} (hnm : n ≤ m)
    (h : ∃ row ∈ (run.state n).rows.lookup id, row.status.owed = false) :
    ∃ row ∈ (run.state m).rows.lookup id, row.status.owed = false := by
  refine run.of_le (I := fun s => ∃ row ∈ s.rows.lookup id, row.status.owed = false) hnm h ?_
  rintro k - ⟨row, hrow, how⟩
  have hchg := change_run hinit k id
  have hpr : Proper (run.state k) (run.label k) := proper_label k
  rw [Option.mem_def.1 hrow] at hchg
  generalize (run.state (k + 1)).rows.lookup id = row' at hchg
  generalize run.label k = e at hchg hpr
  cases hchg with
  | keep => exact ⟨row, rfl, how⟩
  | claim hch => exact absurd (owed_of_chosen hch) (by rw [how]; exact Bool.false_ne_true)
  | settle _ hcur => simp [(current_eq_some.1 hcur).2.2.1, Status.owed] at how
  | requeue => nomatch hpr

/-- A row that is owed for ever comes to rest: its last claim is acknowledged, or is not. -/
theorem row_rest {id : ℕ}
    (how : ∀ m ≥ n, ∃ row ∈ (run.state m).rows.lookup id, row.status.owed = true) :
    ∃ N ≥ n, ∃ row, row.status.owed = true ∧ ∀ m ≥ N, (run.state m).rows.lookup id = some row := by
  obtain ⟨N₀, hrs⟩ := attempts_rest hinit id
  -- from there on, a step keeps the row, or closes its claim
  have hst : ∀ m ≥ max n N₀, ∀ row, (run.state m).rows.lookup id = some row →
      (run.state (m + 1)).rows.lookup id = some row ∨ row.status = .claimed ∧
        ∃ row', (run.state (m + 1)).rows.lookup id = some row' ∧ row'.status ≠ .claimed := by
    intro m hm row hrow
    have hcnt : (run.state (m + 1)).attempts id = (run.state m).attempts id :=
      (hrs (m + 1) (by omega)).trans (hrs m (by omega)).symm
    have hchg := change_run hinit m id
    have hpr : Proper (run.state m) (run.label m) := proper_label m
    unfold attempts at hcnt
    rw [hrow] at hchg hcnt
    generalize (run.state (m + 1)).rows.lookup id = row' at hchg hcnt
    generalize run.label m = e at hchg hpr
    cases hchg with
    | keep => exact .inl rfl
    | claim _ => exact absurd hcnt (Nat.succ_ne_self _)
    | settle _ hcur =>
      exact .inr ⟨(current_eq_some.1 hcur).2.2.1, _, rfl, settle_not_claimed _ _ _⟩
    | requeue => nomatch hpr
  by_cases hopen : ∃ m ≥ max n N₀, ∃ row ∈ (run.state m).rows.lookup id, row.status ≠ .claimed
  · obtain ⟨m, hm, row, hrow, hopen⟩ := hopen
    obtain ⟨row', hrow', how'⟩ := how m (by omega)
    obtain rfl := Option.mem_unique hrow hrow'
    refine ⟨m, by omega, row, how', fun k hk => ?_⟩
    refine run.of_le (I := fun s => s.rows.lookup id = some row) hk hrow fun j hj hsm => ?_
    exact (hst j (by omega) row hsm).resolve_right fun h => hopen h.1
  · push Not at hopen
    obtain ⟨row, hrow, how'⟩ := how (max n N₀) (le_max_left _ _)
    refine ⟨max n N₀, le_max_left _ _, row, how', fun k hk => ?_⟩
    refine run.of_le (I := fun s => s.rows.lookup id = some row) hk hrow fun j hj hsm => ?_
    refine (hst j hj row hsm).resolve_right fun ⟨_, row', hrow', hne⟩ => hne ?_
    exact hopen (j + 1) (by omega) row' hrow'

/-- Once the clock has passed `T`, no other row becomes available by then. -/
theorem mem_keys_of_availableAt {T : ℤ} (hnm : N ≤ n)
    (hlat : ∀ m ≥ N, ∀ t ∈ (run.label m).time, T < t) :
    ∀ id, ∀ row ∈ (run.state n).rows.lookup id, row.availableAt ≤ T →
      id ∈ (run.state N).rows.keys := by
  refine run.of_le (I := fun s => ∀ id, ∀ row ∈ s.rows.lookup id, row.availableAt ≤ T →
    id ∈ (run.state N).rows.keys) hnm ?_ ?_
  · intro id row hrow _
    rw [mem_keys, Option.mem_def.1 hrow]
    rfl
  · intro k hk ih id row' hrow' hT
    have hchg := change_run hinit k id
    have hpr : Proper (run.state k) (run.label k) := proper_label k
    have htm := hlat k hk
    rw [Option.mem_def.1 hrow'] at hchg
    generalize hrow : (run.state k).rows.lookup id = row at hchg
    generalize run.label k = e at hchg hpr htm
    cases hchg with
    | keep => exact ih id row' hrow hT
    | enqueue tenant entry now => exact absurd hT (htm now rfl).not_ge
    | claim _ => exact ih id _ hrow hT
    | @settle _ h outcome _ _ =>
      exact ih id _ hrow (le_availableAt_settle (htm outcome.at_ rfl) hT)
    | requeue => nomatch hpr

/-- A poll takes no row whose attempts have come to an end. -/
theorem attempts_poll {worker : String} {limit : ℕ} {now : ℤ} {locked : List ℕ}
    (hlab : run.label n = .poll worker limit now locked) {entry : ℕ × Row}
    (hent : entry ∈ (run.state n).chosen limit now locked) :
    (run.state (n + 1)).attempts entry.1 ≠ (run.state n).attempts entry.1 := by
  have hso := (tracked_run hinit n).fenced.sorted
  have hrow := hso.lookup_of_mem (mem_chosen hent).1
  have hrow' : ((run.state n).claim config worker limit now locked).rows.lookup entry.1 =
      some (entry.2.claim worker (now + config.lease)) := lookup_claim hso hent
  rw [state_succ, hlab]
  simp only [attempts, apply, hrow, hrow']
  exact Nat.succ_ne_self _

/-- A row at rest that has attempts left is taken, once it waits for no other. -/
theorem not_rest_of_lt (hfa : Fair run) {row : Row} (how : row.status.owed = true)
    (hrow : ∀ n ≥ N, (run.state n).rows.lookup id = some row) (hle : row.attempts < row.maxAttempts)
    (hfr : ∀ᶠ n in atTop, (run.state n).blocked id row = false) : False := by
  have hkp := (tracked_run hinit N).kept id row (hrow N le_rfl)
  -- the instant from which on the row can be taken
  obtain ⟨T, hT⟩ : ∃ T, ∀ now ≥ T, row.availableAt ≤ now ∧ (row.status = .pending ∨
      row.status = .failed ∨ row.status = .claimed ∧ ∃ x ∈ row.claimExpiresAt, x ≤ now) := by
    cases hst : row.status with
    | pending => exact ⟨row.availableAt, fun now hnow => ⟨hnow, .inl rfl⟩⟩
    | failed => exact ⟨row.availableAt, fun now hnow => ⟨hnow, .inr (.inl rfl)⟩⟩
    | claimed =>
      obtain ⟨expires, hexp⟩ := hkp.leased hst
      refine ⟨max row.availableAt expires, fun now hnow => ⟨(le_max_left _ _).trans hnow, ?_⟩⟩
      exact .inr (.inr ⟨rfl, expires, hexp, (le_max_right _ _).trans hnow⟩)
    | _ => simp [hst, Status.owed] at how
  -- the rows that are taken before it were there when the clock had passed its own time
  obtain ⟨N', hlat⟩ := eventually_atTop.1 (hfa.advances row.availableAt)
  have hrs : ∀ᶠ n in atTop, ∀ i ∈ (run.state N').rows.keys,
      (run.state (n + 1)).attempts i = (run.state n).attempts i := by
    refine (eventually_all_finset _).2 fun i _ => ?_
    obtain ⟨M, hM⟩ := attempts_rest hinit i
    filter_upwards [eventually_ge_atTop M] with n hn
    rw [hM (n + 1) (by omega), hM n hn]
  obtain ⟨n, ⟨_, _, now, _, hlab, hlim, hlk⟩, hT', hsti, hopen, hn, hn'⟩ :=
    ((hfa.polls id).and_eventually ((hfa.advances T).and (hrs.and (hfr.and
      ((eventually_ge_atTop N).and (eventually_ge_atTop N')))))).exists
  have hnow : T ≤ now := (hT' now (by rw [hlab]; rfl)).le
  have hdue : (run.state n).due now (id, row) = true :=
    due_iff.2 ⟨(hT now hnow).1, (hT now hnow).2, hle, hopen⟩
  obtain ⟨entry, hent, hbef⟩ :=
    exists_chosen (mem_of_lookup (hrow n hn)) hdue hlk hlim
  have hlo := (tracked_run hinit n).fenced.sorted.lookup_of_mem (mem_chosen hent).1
  have hkey := mem_keys_of_availableAt hinit hn' hlat entry.1 entry.2 hlo hbef
  exact attempts_poll hinit hlab hent (hsti entry.1 hkey)

/-- A row at rest has attempts left. -/
theorem not_rest_of_spent (hfa : Fair run) (hsf : ∀ n, (run.label n).Safe) {row : Row}
    (how : row.status.owed = true) (hrow : ∀ n ≥ N, (run.state n).rows.lookup id = some row)
    (hsp : row.maxAttempts ≤ row.attempts) : False := by
  have hcov : ∀ n, Covered (run.state n) := by
    intro n
    induction n with
    | zero =>
      rw [hinit]
      intro id row hrow
      nomatch hrow
    | succ n ih =>
      rw [state_succ]
      exact ih.apply (tracked_run hinit n) (proper_label n) (hsf n)
  -- the holder of the last attempt gives it up, while somebody still holds it
  obtain ⟨h, hh, hkey⟩ := hcov N id row (hrow N le_rfl) how hsp
  obtain ⟨m, hm, hgo⟩ := hfa.ends N h hh
  obtain ⟨h', hh', hkey'⟩ := hcov m id row (hrow m hm) how hsp
  have hs := tracked_run hinit m
  have hha : h ∈ (run.state m).handed := by
    refine run.of_le (I := fun s => h ∈ s.handed) hm ((tracked_run hinit N).handed h hh) ?_
    intro _ _ hmem
    rw [state_succ]
    exact handed_apply hmem
  have hsm : h = h' := List.inj_on_of_nodup_map hs.fenced.handed_once hha
    (hs.handed h' hh') (hkey.trans hkey'.symm)
  exact hgo (hsm ▸ hh')

/-- A row waits for no other once the earlier ones are settled. -/
theorem eventually_unblocked
    (h : ∀ i < id, ∀ᶠ n in atTop, ∀ row ∈ (run.state n).rows.lookup i, row.status.owed = false) :
    ∀ᶠ n in atTop, ∀ row, (run.state n).blocked id row = false := by
  have hall : ∀ᶠ n in atTop, ∀ i ∈ Finset.range id,
      ∀ row ∈ (run.state n).rows.lookup i, row.status.owed = false :=
    (eventually_all_finset _).2 fun i hi => h i (Finset.mem_range.1 hi)
  filter_upwards [hall] with n hn
  refine fun row => blocked_eq_false.2 fun _ earlier hea _ _ hlt => ?_
  have hlk := (tracked_run hinit n).fenced.sorted.lookup_of_mem hea
  exact hn earlier.1 (Finset.mem_range.2 hlt) earlier.2 hlk

/-- Every row settles, by induction on its identifier: the rows that it waits for do. -/
theorem eventually_settled (hfa : Fair run) (hsf : ∀ n, (run.label n).Safe) (id : ℕ) :
    ∀ᶠ n in atTop, ∀ row ∈ (run.state n).rows.lookup id, row.status.owed = false := by
  induction id using Nat.strong_induction_on with
  | _ id ih =>
    by_contra hnev
    -- the row is owed for ever, since it would stay settled
    have hfr : ∃ᶠ n in atTop, ∃ row ∈ (run.state n).rows.lookup id,
        row.status.owed = true := by
      refine (not_eventually.1 hnev).mono fun n hn => ?_
      push Not at hn
      obtain ⟨row, hrow, hne⟩ := hn
      exact ⟨row, hrow, Bool.of_not_eq_false hne⟩
    obtain ⟨N, row₀, hrow₀, _⟩ := hfr.exists
    have how : ∀ m ≥ N, ∃ row ∈ (run.state m).rows.lookup id, row.status.owed = true := by
      intro m hm
      obtain ⟨row, hrow⟩ := present_of_le hinit hm ⟨row₀, hrow₀⟩
      refine ⟨row, hrow, Bool.of_not_eq_false fun hset => ?_⟩
      obtain ⟨_, hk, _, hrow', how'⟩ := frequently_atTop.1 hfr m
      obtain ⟨_, hrow'', hset'⟩ := settled_of_le hinit hk ⟨row, hrow, hset⟩
      obtain rfl := Option.mem_unique hrow' hrow''
      exact Bool.false_ne_true (hset'.symm.trans how')
    obtain ⟨_, _, row, how', hrow⟩ := row_rest hinit how
    rcases Nat.lt_or_ge row.attempts row.maxAttempts with hle | hsp
    · exact not_rest_of_lt hinit hfa how' hrow hle
        ((eventually_unblocked hinit ih).mono fun n hn => hn row)
    · exact not_rest_of_spent hinit hfa hsf how' hrow hsp

/-- A lost row stays lost. -/
theorem stuck_of_le {id : ℕ} (hnm : n ≤ m) (h : Stuck id (run.state n)) :
    Stuck id (run.state m) := by
  refine run.of_le hnm h fun k _ hsk => ?_
  rw [state_succ]
  exact hsk.apply (tracked_run hinit k) (proper_label k)

/-- In a fair run every row reaches a status in which it is owed no more, and none waits for ever
behind another, exactly when no step writes a row without a budget or crashes in a last attempt. -/
theorem settles_iff (hfair : Fair run) :
    ((∀ n id row, (run.state n).rows.lookup id = some row →
        ∃ m ≥ n, ∃ row' ∈ (run.state m).rows.lookup id, row'.status.owed = false) ∧
      ∀ n id row, (run.state n).rows.lookup id = some row →
        ∃ m ≥ n, ∀ row' ∈ (run.state m).rows.lookup id, (run.state m).blocked id row' = false) ↔
    ∀ n, (run.label n).Safe := by
  constructor
  · rintro ⟨hse, -⟩ n
    by_contra hsf
    obtain ⟨i, hsk⟩ : ∃ i, Stuck i ((run.state n).apply config (run.label n)) :=
      stuck_of_not_safe (tracked_run hinit n) (proper_label n) hsf
    rw [← state_succ] at hsk
    have ⟨row, hrow, _⟩ := hsk
    obtain ⟨m, hm, row', hrow', hset⟩ := hse (n + 1) i row hrow
    obtain ⟨_, hrow'', how, -⟩ := stuck_of_le hinit hm hsk
    obtain rfl := Option.mem_unique hrow' hrow''
    exact Bool.false_ne_true (hset.symm.trans how)
  · intro hsf
    have hset := eventually_settled hinit hfair hsf
    constructor
    · intro n id row hrow
      obtain ⟨m, hm, hnm⟩ := ((hset id).and (eventually_ge_atTop n)).exists
      obtain ⟨row', hrow'⟩ := present_of_le hinit hnm ⟨row, hrow⟩
      exact ⟨m, hnm, row', hrow', hm row' hrow'⟩
    · intro n id row _
      have hopen : ∀ᶠ m in atTop, ∀ row, (run.state m).blocked id row = false :=
        eventually_unblocked hinit fun i _ => hset i
      obtain ⟨m, hm, hnm⟩ := (hopen.and (eventually_ge_atTop n)).exists
      exact ⟨m, hnm, fun row' _ => hm row'⟩

end Run

/-! ### Runs that become idle -/

/-- No claim is in hand, and every row is settled, spent or waits for another. -/
def Idle (s : State) : Prop := s.held = [] ∧ ∀ entry ∈ s.rows, entry.2.status.owed = false ∨
  entry.2.maxAttempts ≤ entry.2.attempts ∨ s.blocked entry.1 entry.2 = true

theorem Idle.poll (hid : Idle s) (worker : String) (limit : ℕ) (now : ℤ) (locked : List ℕ) :
    s.apply config (.poll worker limit now locked) = s := by
  have hch : s.chosen limit now locked = [] := by
    refine List.eq_nil_iff_forall_not_mem.2 fun entry hent => ?_
    obtain ⟨hmem, hdue, -⟩ := mem_chosen hent
    obtain ⟨-, -, hle, hopen⟩ := due_iff.1 hdue
    rcases hid.2 entry hmem with hset | hsp | hbl
    · exact Bool.false_ne_true (hset.symm.trans (owed_of_chosen hent))
    · exact hle.not_ge hsp
    · exact Bool.false_ne_true (hopen.symm.trans hbl)
  have hrs : s.rows.updateWhere (fun id _ => id ∈ ([] : List ℕ))
      (·.claim worker (now + config.lease)) = s.rows := by
    simp [updateWhere]
  simp only [apply, claim, hch, List.map_nil, List.append_nil, hrs]

/-- Some steps, and then a worker that polls for ever. -/
def script (events : List Event) (n : ℕ) : Event := events.getD n (.poll "a" 10 n [])

theorem script_of_le (h : events.length ≤ n) : script events n = .poll "a" 10 n [] := by
  rw [script, List.getD_eq_getElem?_getD, List.getElem?_eq_none h, Option.getD_none]

theorem states_script (hid : Idle (states (apply config) .init (script events) events.length))
    (hn : events.length ≤ n) : states (apply config) .init (script events) n =
      states (apply config) .init (script events) events.length := by
  induction n, hn using Nat.le_induction with
  | base => rfl
  | succ n hn ih =>
    show apply config _ _ = _
    rw [script_of_le hn, ih]
    exact hid.poll ..

/-- Such a run, when its first steps are proper. -/
def scripted (config : Config) (events : List Event) (hproper : ∀ n < events.length,
      Proper (states (State.apply config) .init (script events) n) (script events n)) :
    (working config).Run where
  state := states (State.apply config) .init (script events)
  label := script events
  step n := by
    refine ⟨rfl, ?_⟩
    rcases Nat.lt_or_ge n events.length with hlt | hge
    · exact hproper n hlt
    · rw [script_of_le hge]
      exact .poll ..

theorem fair_scripted {hpr : ∀ n < events.length,
      Proper (states (apply config) .init (script events) n) (script events n)}
    (hid : Idle (states (apply config) .init (script events) events.length)) :
    Fair (scripted config events hpr) where
  polls id := by
    refine frequently_atTop.2 fun n => ⟨max n events.length, le_max_left _ _, ?_⟩
    exact ⟨_, _, _, _, script_of_le (le_max_right _ _), by decide, List.not_mem_nil⟩
  advances T := by
    filter_upwards [eventually_ge_atTop (max events.length (T.toNat + 1))] with n hn
    intro t ht
    rw [show (scripted config events hpr).label n = .poll "a" 10 n [] from
      script_of_le ((le_max_left _ _).trans hn)] at ht
    cases ht
    omega
  ends n h _ := by
    refine ⟨max n events.length, le_max_left _ _, ?_⟩
    show h ∉ (states (apply config) .init (script events) _).held
    rw [states_script hid (le_max_right _ _), hid.1]
    exact List.not_mem_nil

/-- A message and its successor in order: the first is delivered at once, the second after a crash,
at its last attempt. -/
def deliveries : List Event :=
  [.enqueue 1 "t" (message 2) 0, .enqueue 2 "t" (message 2) 0, .poll "a" 10 0 [],
    .ack (messageClaim "a" 1 1 2) ⟨.delivered, 0, none⟩, .poll "a" 10 1 [],
    .crash (messageClaim "a" 2 1 2), .poll "b" 10 100 [],
    .ack (messageClaim "b" 2 2 2) ⟨.delivered, 100, none⟩]

theorem proper_deliveries (n : ℕ) (hn : n < deliveries.length) :
    Proper (states (apply defaultSchedule) .init (script deliveries) n) (script deliveries n) := by
  match n, hn with
  | 0, _ | 1, _ => exact .enqueue rfl
  | 2, _ | 4, _ | 6, _ => exact .poll ..
  | 3, _ | 7, _ => exact .ack (by decide +kernel) (.delivered _)
  | 5, _ => exact .crash (by decide +kernel)

theorem settles_iff_deliveries : ∃ run : (working defaultSchedule).Run,
    run.label = script deliveries ∧ ∀ n id row, (run.state n).rows.lookup id = some row →
      ∃ m ≥ n, ∃ row' ∈ (run.state m).rows.lookup id, row'.status.owed = false := by
  refine ⟨scripted defaultSchedule deliveries proper_deliveries, rfl, ?_⟩
  have hid : Idle (states (apply defaultSchedule) .init (script deliveries) 8) :=
    ⟨by decide +kernel, by decide +kernel⟩
  refine ((settles_iff rfl (fair_scripted hid)).2 fun n => ?_).1
  show (script deliveries n).Safe
  rcases Nat.lt_or_ge n deliveries.length with hlt | hge
  · match n, hlt with
    | 0, _ | 1, _ => exact nofun
    | 2, _ | 3, _ | 4, _ | 6, _ | 7, _ => trivial
    | 5, _ => rfl
  · rw [script_of_le hge]
    trivial

/-- The worker crashes in the only attempt of a message that another one is in order with. -/
def lastAttemptLost : List Event :=
  [.enqueue 1 "t" (message 1) 0, .enqueue 2 "t" (message 1) 0, .poll "a" 10 0 [],
    .crash (messageClaim "a" 1 1 1)]

theorem proper_lastAttemptLost (n : ℕ) (hn : n < lastAttemptLost.length) :
    Proper (states (apply defaultSchedule) .init (script lastAttemptLost) n)
      (script lastAttemptLost n) := by
  match n, hn with
  | 0, _ | 1, _ => exact .enqueue rfl
  | 2, _ => exact .poll ..
  | 3, _ => exact .crash (by decide +kernel)

/-- A fair run in which a row stays claimed for ever, and the next one of its key stays behind. -/
theorem lost_after_crash : ∃ run : (working defaultSchedule).Run, run.state 0 = .init ∧ Fair run ∧
    ∀ n ≥ 4, ((run.state n).rows.lookup 1).any (·.status = .claimed) = true ∧
    ((run.state n).rows.lookup 2).any
      (fun row => row.status = .pending && (run.state n).blocked 2 row) = true := by
  have hid : Idle (states (apply defaultSchedule) .init (script lastAttemptLost) 4) :=
    ⟨by decide +kernel, by decide +kernel⟩
  refine ⟨scripted defaultSchedule lastAttemptLost proper_lastAttemptLost, rfl,
    fair_scripted hid, fun n hn => ?_⟩
  rw [show (scripted defaultSchedule lastAttemptLost proper_lastAttemptLost).state n =
    states (apply defaultSchedule) .init (script lastAttemptLost) 4 from
      states_script hid hn]
  exact ⟨by decide +kernel, by decide +kernel⟩

end AsteriusIdp.Outbox
