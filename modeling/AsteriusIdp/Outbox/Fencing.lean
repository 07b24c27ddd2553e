import AsteriusIdp.Outbox.Store

/-!
# The attempt counter as a fence

Over every interleaving of claims, acknowledgements and requeues, by workers that may hold claims
which were taken over since.

* `change_apply` : what a step can do to a row.
* `Fenced` : every claim of a row has an attempt that the row's counter reached, and every
  acknowledgement that took effect has one that the row cannot be acknowledged under again.
* `fenced_of_path` : the guarantees, after any history.
-/

namespace AsteriusIdp.Outbox

open Transition Entries State

variable {config : Config} {s : State}

/-! ### What a step does to a row -/

variable {limit id : ℕ} {now : ℤ} {locked : List ℕ} {row : Row} {e : Event} {entry : ℕ × Row}

theorem mem_chosen (h : entry ∈ s.chosen limit now locked) :
    entry ∈ s.rows ∧ s.due now entry = true ∧ entry.1 ∉ locked := by
  have hmem := List.mem_mergeSort.1 (List.mem_of_mem_take h)
  simpa using hmem

theorem due_iff : s.due now entry = true ↔ entry.2.availableAt ≤ now ∧
    (entry.2.status = .pending ∨ entry.2.status = .failed ∨
      entry.2.status = .claimed ∧ ∃ expires ∈ entry.2.claimExpiresAt, expires ≤ now) ∧
    entry.2.attempts < entry.2.maxAttempts ∧ s.blocked entry.1 entry.2 = false := by
  simp [due, and_assoc, or_assoc, Option.any_eq_true]

theorem blocked_eq_false : s.blocked id row = false ↔
    (row.orderingKey.isSome → ∀ earlier ∈ s.rows, earlier.2.tenant = row.tenant →
      earlier.2.orderingKey = row.orderingKey → earlier.1 < id →
        earlier.2.status.owed = false) := by
  simp [blocked]

variable {event : OutboxEvent}

theorem current_eq_some : s.current event = some row ↔
    lookup s.rows event.id = some row ∧ row.tenant = event.tenant ∧
    row.status = .claimed ∧ row.attempts = event.attempt := by
  simp [current, and_assoc]

theorem mem_map_chosen (hso : s.rows.Sorted) (hrow : s.rows.lookup id = some row) :
    id ∈ (s.chosen limit now locked).map Prod.fst ↔ (id, row) ∈ s.chosen limit now locked := by
  constructor
  · intro hid
    obtain ⟨_, hent, rfl⟩ := List.mem_map.1 hid
    have hsm := hso.lookup_of_mem (mem_chosen hent).1
    rw [hrow] at hsm
    rwa [Option.some.inj hsm]
  · exact fun h => List.mem_map_of_mem h

/-- A row that is taken is claimed. -/
theorem lookup_claim (hso : s.rows.Sorted) {worker : String}
    (h : (id, row) ∈ s.chosen limit now locked) :
    (s.claim config worker limit now locked).rows.lookup id =
      some (row.claim worker (now + config.lease)) := by
  have hrow := hso.lookup_of_mem (mem_chosen h).1
  simp [claim, hrow, (mem_map_chosen hso hrow).2 h]

/-- What a step can make of a row. -/
inductive Change (config : Config) (s : State) (id : ℕ) : Option Row → Event → Option Row → Prop
  | keep (row : Option Row) (e : Event) : Change config s id row e row
  | enqueue (tenant : String) (entry : NewOutboxEntry) (now : ℤ) :
    Change config s id none (.enqueue id tenant entry now) (some (entry.row tenant now))
  | claim {row : Row} {worker : String} {limit : ℕ} {now : ℤ} {locked : List ℕ} :
    (id, row) ∈ s.chosen limit now locked →
    Change config s id (some row) (.poll worker limit now locked)
      (some (row.claim worker (now + config.lease)))
  | settle {row : Row} {h : Held} {outcome : Outcome} :
    h.event.id = id → s.current h.event = some row →
    Change config s id (some row) (.ack h outcome) (some (row.settle config h.event outcome))
  | requeue {row : Row} {tenant : String} {now : ℤ} : row.status = .abandoned →
    Change config s id (some row) (.requeue tenant id now) (some (row.requeue config now))

theorem change_enqueue (i id : ℕ) (tenant : String) (entry : NewOutboxEntry) (now : ℤ) :
    Change config s id (s.rows.lookup id) (.enqueue i tenant entry now)
      ((s.enqueue i tenant entry now).rows.lookup id) := by
  unfold enqueue
  cases hrow : s.rows.lookup i with
  | some => exact .keep _ _
  | none =>
    simp only [lookup_insert]
    split_ifs with hid
    · rw [hid, hrow]
      exact .enqueue tenant entry now
    · exact .keep _ _

theorem change_claim (hso : s.rows.Sorted) (id : ℕ) (worker : String) (limit : ℕ) (now : ℤ)
    (locked : List ℕ) : Change config s id (s.rows.lookup id) (.poll worker limit now locked)
      ((s.claim config worker limit now locked).rows.lookup id) := by
  simp only [claim, lookup_updateWhere]
  cases hrow : s.rows.lookup id with
  | none => exact .keep _ _
  | some =>
    simp only [decide_eq_true_eq]
    split_ifs with hid
    · exact .claim ((mem_map_chosen hso hrow).1 hid)
    · exact .keep _ _

theorem change_ack (id : ℕ) (h : Held) (outcome : Outcome) :
    Change config s id (s.rows.lookup id) (.ack h outcome)
      ((s.ack config h.event outcome).rows.lookup id) := by
  unfold State.ack
  cases hcur : s.current h.event with
  | none => exact .keep _ _
  | some =>
    simp only [lookup_insert]
    split_ifs with hid
    · rw [hid, (current_eq_some.1 hcur).1]
      exact .settle rfl hcur
    · exact .keep _ _

theorem change_requeue (i id : ℕ) (tenant : String) (now : ℤ) :
    Change config s id (s.rows.lookup id) (.requeue tenant i now)
      ((s.requeue config tenant i now).rows.lookup id) := by
  unfold requeue
  cases hrow : s.rows.lookup i with
  | none => exact .keep _ _
  | some =>
    simp only
    split_ifs with hde
    · simp only [lookup_insert]
      split_ifs with hid
      · rw [hid, hrow]
        exact .requeue hde.2.1
      · exact .keep _ _
    · exact .keep _ _

theorem change_apply (config : Config) (hso : s.rows.Sorted) (e : Event) (id : ℕ) :
    Change config s id (s.rows.lookup id) e ((s.apply config e).rows.lookup id) := by
  cases e with
  | enqueue i tenant entry now => exact change_enqueue i id tenant entry now
  | poll worker limit now locked => exact change_claim hso id worker limit now locked
  | ack h outcome => exact change_ack id h outcome
  | crash => exact .keep _ _
  | requeue tenant i now => exact change_requeue i id tenant now

theorem sorted_apply (hso : s.rows.Sorted) (e : Event) : (s.apply config e).rows.Sorted := by
  cases e with
  | enqueue =>
    simp only [apply, enqueue]
    split
    · exact hso.insert _ _
    · exact hso
  | poll =>
    simp only [apply, claim]
    exact hso.updateWhere _ _
  | ack =>
    simp only [apply, State.ack]
    split
    · exact hso
    · exact hso.insert _ _
  | crash => exact hso
  | requeue =>
    simp only [apply, requeue]
    split
    · exact hso
    · split_ifs
      · exact hso.insert _ _
      · exact hso

/-! ### The counter of a row -/

/-- The status that a verdict leaves. -/
def Verdict.status : Verdict → Status
  | delivered | journalled => .delivered
  | retry => .failed
  | abandoned => .abandoned
  | expired => .expired

section Settle

variable (event : OutboxEvent) (outcome : Outcome) (row : Row)

/-- An outcome decides the status, and leaves the tenant, the counter and the budget. -/
theorem settle_spec : (row.settle config event outcome).status = outcome.verdict.status ∧
    (row.settle config event outcome).tenant = row.tenant ∧
    (row.settle config event outcome).attempts = row.attempts ∧
    (row.settle config event outcome).maxAttempts = row.maxAttempts := by
  unfold Row.settle
  rcases outcome with ⟨_ | _ | _ | _ | _, _, _⟩ <;> simp only <;> split_ifs <;>
    exact ⟨rfl, rfl, rfl, rfl⟩

theorem status_settle : (row.settle config event outcome).status = outcome.verdict.status :=
  (settle_spec ..).1

@[simp] theorem tenant_settle : (row.settle config event outcome).tenant = row.tenant :=
  (settle_spec ..).2.1

@[simp] theorem attempts_settle : (row.settle config event outcome).attempts = row.attempts :=
  (settle_spec ..).2.2.1

@[simp] theorem maxAttempts_settle :
    (row.settle config event outcome).maxAttempts = row.maxAttempts := (settle_spec ..).2.2.2

theorem settle_not_claimed : (row.settle config event outcome).status ≠ .claimed := by
  rw [status_settle]
  cases outcome.verdict <;> decide

end Settle

/-- A row stays, and its counter only grows; under the same count it is not claimed again. -/
theorem Change.advance {row' : Option Row} (h : Change config s id (some row) e row') :
    ∃ r ∈ row', row.attempts ≤ r.attempts ∧
    (r.attempts = row.attempts → r.status = .claimed → row.status = .claimed) := by
  cases h with
  | keep => exact ⟨row, rfl, le_rfl, fun _ hcld => hcld⟩
  | claim => exact ⟨_, rfl, Nat.le_succ _, fun hsm => absurd hsm (Nat.succ_ne_self _)⟩
  | settle _ _ =>
    exact ⟨_, rfl, (attempts_settle ..).ge, fun _ hcld =>
      absurd hcld (settle_not_claimed _ _ _)⟩
  | requeue _ => exact ⟨_, rfl, le_rfl, fun _ hcld => nomatch hcld⟩

/-- Only a claim raises the counter. -/
theorem Change.claimed_of_lt {row' : Row} (h : Change config s id (some row) e (some row'))
    (hlt : row.attempts < row'.attempts) :
    ∃ limit now locked, (id, row) ∈ s.chosen limit now locked := by
  cases h with
  | keep => exact absurd hlt (lt_irrefl _)
  | claim hch => exact ⟨_, _, _, hch⟩
  | settle => exact absurd hlt (attempts_settle ..).le.not_gt
  | requeue _ => exact absurd hlt (lt_irrefl _)

/-- The budget is kept. -/
theorem Change.within {row : Option Row} {row' : Row} (h : Change config s id row e (some row'))
    (hwi : ∀ r ∈ row, r.attempts ≤ r.maxAttempts) : row'.attempts ≤ row'.maxAttempts := by
  cases h with
  | keep => exact hwi _ rfl
  | enqueue => exact Nat.zero_le _
  | claim hch => exact (due_iff.1 (mem_chosen hch).2.1).2.2.1
  | settle _ _ =>
    rw [attempts_settle, maxAttempts_settle]
    exact hwi _ rfl
  | requeue _ => exact Nat.le_add_right _ _

/-- An older attempt is not the current one. -/
theorem ack_of_lt (hrow : s.rows.lookup event.id = some row)
    (hlt : event.attempt < row.attempts) (outcome : Outcome) : s.ack config event outcome = s := by
  have hno : s.current event = none := by
    by_contra hcur
    obtain ⟨_, hrow'⟩ := Option.ne_none_iff_exists'.1 hcur
    obtain ⟨hlk, -, -, hatt⟩ := current_eq_some.1 hrow'
    cases hrow.symm.trans hlk
    exact hlt.ne' hatt
  simp [State.ack, hno]

/-! ### The invariant -/

/-- Every claim is of an attempt that its row has reached, and was made once.  Every acknowledgement
is of one that its row has left behind, took effect once, and is on the trail. -/
structure Fenced (s : State) : Prop where
  sorted : s.rows.Sorted
  within : ∀ id, ∀ row ∈ s.rows.lookup id, row.attempts ≤ row.maxAttempts
  reached : ∀ h ∈ s.handed, ∃ row ∈ s.rows.lookup h.event.id, h.event.attempt ≤ row.attempts
  handed_once : (s.handed.map Held.key).Nodup
  settled : ∀ a ∈ s.acked, ∃ row ∈ s.rows.lookup a.1,
    a.2 ≤ row.attempts ∧ (a.2 = row.attempts → row.status ≠ .claimed)
  acked_once : s.acked.Nodup
  trail : s.trail.map (fun a => (a.id, a.attempt)) = s.acked

theorem fenced_init : Fenced .init :=
  ⟨.nil, by simp [init], by simp [init], by simp [init], by simp [init],
    by simp [init], rfl⟩

namespace Fenced

variable (hs : Fenced s)
include hs

theorem within_apply (e : Event) (id : ℕ) (row : Row)
    (hrow : row ∈ (s.apply config e).rows.lookup id) : row.attempts ≤ row.maxAttempts := by
  have hchg := change_apply config hs.sorted e id
  rw [Option.mem_def.1 hrow] at hchg
  exact hchg.within (hs.within id)

/-- What was claimed has been reached, whatever comes next. -/
theorem reached_apply (e : Event) {id k : ℕ} (h : ∃ row ∈ s.rows.lookup id, k ≤ row.attempts) :
    ∃ row ∈ (s.apply config e).rows.lookup id, k ≤ row.attempts := by
  obtain ⟨_, hrow, hk⟩ := h
  have hchg := change_apply config hs.sorted e id
  rw [Option.mem_def.1 hrow] at hchg
  obtain ⟨row', hrow', hle, -⟩ := hchg.advance
  exact ⟨row', hrow', hk.trans hle⟩

/-- What was acknowledged cannot be acknowledged again, whatever comes next. -/
theorem settled_apply (e : Event) {id k : ℕ} (h : ∃ row ∈ s.rows.lookup id,
      k ≤ row.attempts ∧ (k = row.attempts → row.status ≠ .claimed)) :
    ∃ row ∈ (s.apply config e).rows.lookup id,
      k ≤ row.attempts ∧ (k = row.attempts → row.status ≠ .claimed) := by
  obtain ⟨row, hrow, hk, hdn⟩ := h
  have hchg := change_apply config hs.sorted e id
  rw [Option.mem_def.1 hrow] at hchg
  obtain ⟨row', hrow', hle, hcld⟩ := hchg.advance
  refine ⟨row', hrow', hk.trans hle, fun heq hst => ?_⟩
  have hsm : row'.attempts = row.attempts := le_antisymm (heq ▸ hk) hle
  exact hdn (heq.trans hsm) (hcld hsm hst)

theorem nodup_chosen (limit : ℕ) (now : ℤ) (locked : List ℕ) :
    ((s.chosen limit now locked).map Prod.fst).Nodup := by
  have hrs : (s.rows.map Prod.fst).Nodup := List.pairwise_map.2 hs.sorted.pairwise_ne
  have hdue : ((s.rows.filter fun entry => s.due now entry && entry.1 ∉ locked).map
      Prod.fst).Nodup := hrs.sublist (List.filter_sublist.map _)
  have hmrg := ((List.mergeSort_perm _ before).map Prod.fst).nodup_iff.2 hdue
  exact hmrg.sublist ((List.take_sublist _ _).map _)

theorem claim (worker : String) (limit : ℕ) (now : ℤ) (locked : List ℕ) :
    Fenced (s.apply config (.poll worker limit now locked)) := by
  -- the claims that are new, and the row each of them is of
  have hnew : ∀ h ∈ (s.chosen limit now locked).map (fun entry =>
      (⟨worker, (entry.2.claim worker (now + config.lease)).event entry.1⟩ : Held)),
      ∃ row, (h.event.id, row) ∈ s.chosen limit now locked ∧
      h.event.attempt = row.attempts + 1 := by
    intro h hh
    obtain ⟨entry, hent, rfl⟩ := List.mem_map.1 hh
    exact ⟨entry.2, hent, rfl⟩
  refine ⟨sorted_apply hs.sorted _, hs.within_apply _, ?_, ?_, ?_, hs.acked_once, hs.trail⟩
  · intro h hh
    rcases List.mem_append.1 hh with hold | hh
    · exact hs.reached_apply _ (hs.reached h hold)
    · obtain ⟨row, hch, hatt⟩ := hnew h hh
      exact ⟨row.claim worker (now + config.lease), lookup_claim hs.sorted hch, hatt.le⟩
  · show ((s.handed ++ _).map Held.key).Nodup
    rw [List.map_append, List.nodup_append']
    refine ⟨hs.handed_once, ?_, ?_⟩
    · have hids := hs.nodup_chosen limit now locked
      rw [List.map_map]
      refine List.Nodup.of_map Prod.fst ?_
      rw [List.map_map]
      exact hids
    · intro key hold hkey
      obtain ⟨h, hh, rfl⟩ := List.mem_map.1 hkey
      obtain ⟨h', hh', heq⟩ := List.mem_map.1 hold
      obtain ⟨hid, hatt'⟩ := Prod.mk.inj heq
      obtain ⟨row, hch, hatt⟩ := hnew h hh
      obtain ⟨row', hrow', hle⟩ := hs.reached h' hh'
      have hrow := hs.sorted.lookup_of_mem (mem_chosen hch).1
      rw [hid, hrow] at hrow'
      cases hrow'
      omega
  · exact fun a ha => hs.settled_apply _ (hs.settled a ha)

variable {event : OutboxEvent}

/-- A current attempt has not been acknowledged. -/
theorem not_mem_acked {row : Row} (hcur : s.current event = some row) :
    (event.id, event.attempt) ∉ s.acked := by
  intro hack
  obtain ⟨hrow, -, hcld, hatt⟩ := current_eq_some.1 hcur
  obtain ⟨_, hrow', -, hdn⟩ := hs.settled _ hack
  rw [hrow] at hrow'
  cases hrow'
  exact hdn hatt.symm hcld

/-- A current attempt is not on the trail, so that it is recorded. -/
theorem record_eq {row : Row} (hcur : s.current event = some row)
    (outcome : Outcome) : s.record event outcome =
      s.trail ++ [⟨event.id, event.attempt, outcome.at_, outcome.verdict, outcome.detail⟩] := by
  refine if_neg fun hrec => hs.not_mem_acked hcur ?_
  obtain ⟨_, ha, heq⟩ := List.any_eq_true.1 hrec
  simp only [Bool.and_eq_true, decide_eq_true_eq] at heq
  rw [← hs.trail, ← heq.1, ← heq.2]
  exact List.mem_map_of_mem ha

/-- A step that hands out nothing and acknowledges nothing. -/
theorem quiet (e : Event) (hha : (s.apply config e).handed = s.handed)
    (hack : (s.apply config e).acked = s.acked) (htra : (s.apply config e).trail = s.trail) :
    Fenced (s.apply config e) := by
  refine ⟨sorted_apply hs.sorted e, hs.within_apply e, ?_, ?_, ?_, ?_, ?_⟩
  · rw [hha]
    exact fun h hh => hs.reached_apply e (hs.reached h hh)
  · rw [hha]
    exact hs.handed_once
  · rw [hack]
    exact fun a ha => hs.settled_apply e (hs.settled a ha)
  · rw [hack]
    exact hs.acked_once
  · rw [htra, hack]
    exact hs.trail

theorem ack (h : Held) (outcome : Outcome) : Fenced (s.apply config (.ack h outcome)) := by
  cases hcur : s.current h.event with
  | none =>
    have happ : s.apply config (.ack h outcome) = s.drop h := by
      simp [apply, State.ack, hcur]
    exact hs.quiet (.ack h outcome) (by rw [happ]; rfl) (by rw [happ]; rfl)
      (by rw [happ]; rfl)
  | some row =>
    obtain ⟨hrow, -, -, hatt⟩ := current_eq_some.1 hcur
    have happ : s.apply config (.ack h outcome) =
        { s with
          rows := s.rows.insert h.event.id (row.settle config h.event outcome)
          trail := s.record h.event outcome
          acked := s.acked ++ [h.key]
          held := s.held.filter (· ≠ h) } := by
      simp [apply, State.ack, hcur, drop, Held.key]
    have hset : ∃ row ∈ (s.apply config (.ack h outcome)).rows.lookup h.event.id,
        h.event.attempt ≤ row.attempts ∧
        (h.event.attempt = row.attempts → row.status ≠ .claimed) := by
      refine ⟨row.settle config h.event outcome, ?_, ?_, fun _ => settle_not_claimed _ _ _⟩
      · rw [happ]
        exact lookup_insert_self _ _ _
      · rw [attempts_settle, hatt]
    refine ⟨sorted_apply hs.sorted _, hs.within_apply _, ?_, ?_, ?_, ?_, ?_⟩
    · intro h' hh'
      rw [happ] at hh'
      exact hs.reached_apply _ (hs.reached h' hh')
    · rw [happ]
      exact hs.handed_once
    · intro a ha
      rw [happ] at ha
      rcases List.mem_append.1 ha with hold | hnew
      · exact hs.settled_apply _ (hs.settled a hold)
      · rw [List.mem_singleton.1 hnew]
        exact hset
    · rw [happ]
      exact List.nodup_append'.2 ⟨hs.acked_once, List.nodup_singleton _, by
        simpa [Held.key] using hs.not_mem_acked hcur⟩
    · rw [happ]
      simp [hs.record_eq hcur, hs.trail, Held.key]

theorem apply (e : Event) : Fenced (s.apply config e) := by
  cases e with
  | enqueue =>
    refine hs.quiet _ ?_ ?_ ?_ <;> simp only [State.apply, enqueue] <;> split <;> rfl
  | poll worker limit now locked => exact hs.claim worker limit now locked
  | ack h outcome => exact hs.ack h outcome
  | crash => exact hs.quiet _ rfl rfl rfl
  | requeue =>
    refine hs.quiet _ ?_ ?_ ?_ <;> simp only [State.apply, requeue] <;> split <;>
      first | rfl | split_ifs <;> rfl

end Fenced

/-- Every sequence of events is a history. -/
theorem path_foldl (config : Config) (events : List Event) (s : State) :
    (system config).Path s events (events.foldl (apply config) s) := by
  induction events generalizing s with
  | nil => exact .nil s
  | cons e events ih => exact .cons rfl (ih _)

theorem fenced_of_run {events : List Event} (h : (system config).Path .init events s) :
    Fenced s := by
  refine h.invariant (I := Fenced) ?_ fenced_init
  intro _ e _ hst hs
  cases hst
  exact hs.apply e

/-- After any history: whatever step comes next, a row that it claims has no earlier row of its
tenant and key that is owed.  Each attempt of a row was handed out at most once and acknowledged
with effect at most once, the acknowledgements with effect are the trail, an acknowledgement of an
older attempt does nothing, and no row is over its budget. -/
theorem fenced_of_path {events : List Event} (h : (system config).Path .init events s) :
    (∀ e id row row', s.rows.lookup id = some row →
      (s.apply config e).rows.lookup id = some row' → row.attempts < row'.attempts →
        row.orderingKey.isSome → ∀ earlier ∈ s.rows, earlier.2.tenant = row.tenant →
          earlier.2.orderingKey = row.orderingKey → earlier.1 < id →
            earlier.2.status.owed = false) ∧ (s.handed.map Held.key).Nodup ∧
    (s.acked.Nodup ∧ s.trail.map (fun a => (a.id, a.attempt)) = s.acked) ∧
    (∀ event row outcome, s.rows.lookup event.id = some row → event.attempt < row.attempts →
      s.ack config event outcome = s) ∧
    ∀ id row, s.rows.lookup id = some row → row.attempts ≤ row.maxAttempts := by
  have hs := fenced_of_run h
  refine ⟨?_, hs.handed_once, ⟨hs.acked_once, hs.trail⟩, ?_,
    fun id row hrow => hs.within id row hrow⟩
  · intro e id row _ hrow hrow' hlt hkey
    have hchg := change_apply config hs.sorted e id
    rw [hrow, hrow'] at hchg
    obtain ⟨_, _, _, hch⟩ := hchg.claimed_of_lt hlt
    have hdue := due_iff.1 (mem_chosen hch).2.1
    exact blocked_eq_false.1 hdue.2.2.2 hkey
  · exact fun event row outcome hrow hlt => ack_of_lt hrow hlt outcome

/-- The schedule with the default backoff and a minute's lease. -/
def defaultSchedule : Config := ⟨⟨5, 3600, by decide, by decide⟩, 60, 10⟩

/-- A message to one receiver, in order with its other messages. -/
def message (budget : ℕ) : NewOutboxEntry :=
  ⟨"ssf.set", "https://rp.example/events", .obj [], some "stream", some budget⟩

/-- A claim of such a message. -/
def messageClaim (worker : String) (id attempt budget : ℕ) : Held :=
  ⟨worker, "t", id, "ssf.set", "https://rp.example/events", .obj [], attempt, budget, 0⟩

/-- The first claim of a row lapses and is taken over; both workers acknowledge, the first one
late.  The next row is claimed after that. -/
def takenOver : List Event :=
  [.enqueue 1 "t" (message 3) 0, .enqueue 2 "t" (message 3) 0, .poll "a" 10 0 [],
    .poll "b" 10 100 [], .ack (messageClaim "a" 1 1 3) ⟨.abandoned, 101, some "timed out"⟩,
    .ack (messageClaim "b" 1 2 3) ⟨.delivered, 102, none⟩, .poll "a" 10 103 []]

theorem fenced_of_path_takenOver : let s := takenOver.foldl (State.apply defaultSchedule) .init
    s.handed.map Held.key = [(1, 1), (1, 2), (2, 1)] ∧ s.acked = [(1, 2)] ∧
    (s.handed.map Held.key).Nodup ∧ s.acked.Nodup :=
  have hgu := fenced_of_path (path_foldl defaultSchedule takenOver .init)
  ⟨by decide +kernel, by decide +kernel, hgu.2.1, hgu.2.2.1.1⟩

end AsteriusIdp.Outbox
