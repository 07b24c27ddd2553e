import AsteriusIdp.Lib.Entries

/-!
# Polled event streams

A stream that is polled holds its events until the receiver acknowledges them or reports an error
for them.  A poll hands over the oldest, and removes nothing.

* `lookup_iff_waiting` : the queue holds what was queued and not acknowledged since.
* `polls_return` : what a poll returns after any sequence of events, and when `moreAvailable`
  tells whether another poll returns something.  The queue is counted whatever the status is, so
  a stream that is not enabled reports events that no poll returns.
-/

namespace AsteriusIdp.Ssf

/-- Where a stream stands. -/
inductive StreamStatus
  | enabled
  | paused
  | disabled
  deriving DecidableEq, Repr

namespace StreamStatus

/-- Events are delivered. -/
def delivers (status : StreamStatus) : Bool := status = enabled

/-- An event that cannot be sent is kept for later. -/
def holds (status : StreamStatus) : Bool := status = paused

end StreamStatus

/-- Why an event is dropped. -/
inductive Discarded
  | streamDisabled
  | holdingTooMany
  deriving DecidableEq, Repr

/-- What queueing one event did. -/
inductive Enqueued
  | queued
  | held
  | dropped (why : Discarded)
  deriving DecidableEq, Repr

/-- A queued event. -/
@[ext] structure QueuedSet where
  jti : String
  jws : String
  deriving DecidableEq, Repr

/-- The answer to a poll. -/
structure PollBatch where
  sets : List QueuedSet
  moreAvailable : Bool
  deriving DecidableEq, Repr

/-- A row of the queue; its key is the `jti`. -/
structure Row where
  jws : String
  queuedAt : ℤ
  deriving DecidableEq, Repr

/-- A stream and its queue. -/
structure Stream where
  status : StreamStatus
  queue : Entries String Row

/-- Events of a paused stream. -/
def maxHeldWhilePaused : ℕ := 10000

/-- Rows are handed over in the order of their instants, then of their identifiers. -/
def age (entry : String × Row) : ℤ ×ₗ String := toLex (entry.2.queuedAt, entry.1)

namespace Stream

variable (s : Stream)

/-- Queue an event. -/
def enqueue (set : QueuedSet) (now : ℤ) : Enqueued × Stream :=
  if !s.status.delivers && !s.status.holds then (.dropped .streamDisabled, s)
  else if s.status.holds && maxHeldWhilePaused ≤ s.queue.length then (.dropped .holdingTooMany, s)
  else (if s.status.holds then .held else .queued,
    -- a `jti` that is queued already is left alone
    if s.queue.contains set.jti then s
    else { s with queue := s.queue.insert set.jti ⟨set.jws, now⟩ })

/-- The oldest events. -/
def deliver (limit : ℕ) : PollBatch :=
  let rows := (if s.status = .enabled then s.queue.mergeSort fun x y => age x ≤ age y
    else []).take limit
  ⟨rows.map fun entry => ⟨entry.1, entry.2.jws⟩, rows.length < s.queue.length⟩

/-- The delete of an acknowledgement and of an error report. -/
def remove (jtis : List String) : Stream :=
  { s with queue := s.queue.filter fun entry => entry.1 ∉ jtis }

end Stream

/-- What happens to a stream. -/
inductive Event
  | enqueue (set : QueuedSet) (now : ℤ)
  | poll (limit : ℕ)
  | remove (jtis : List String)
  | setStatus (status : StreamStatus)

/-- The stream after an event. -/
def Stream.apply (s : Stream) : Event → Stream
  | .enqueue set now => (s.enqueue set now).2
  | .poll _ => s
  | .remove jtis => s.remove jtis
  | .setStatus status => { s with status }

/-- A stream after the events since its creation, the latest first. -/
def run : List Event → Stream
  | [] => ⟨.enabled, []⟩
  | e :: earlier => (run earlier).apply e

/-- The event was queued at `t` and has not been acknowledged since. -/
def Waiting : List Event → QueuedSet → ℤ → Prop
  | [], _, _ => False
  | e :: earlier, set, t =>
    (Waiting earlier set t ∧ ∀ jtis, e = .remove jtis → set.jti ∉ jtis) ∨
      e = .enqueue set t ∧ ((run earlier).enqueue set t).1 ∈ [.queued, .held] ∧
      (run earlier).queue.contains set.jti = false

variable {s : Stream} {set : QueuedSet} {t : ℤ}

/-- What is queued is inserted, unless it is dropped or there already. -/
theorem enqueue_spec (s : Stream) (set : QueuedSet) (t : ℤ) :
    ((s.enqueue set t).1 ∈ [.queued, .held] ∧ s.queue.contains set.jti = false ∧
      (s.enqueue set t).2.queue = s.queue.insert set.jti ⟨set.jws, t⟩) ∨
    ¬((s.enqueue set t).1 ∈ [.queued, .held] ∧ s.queue.contains set.jti = false) ∧
    (s.enqueue set t).2 = s := by
  unfold Stream.enqueue
  split_ifs with hdis hfu hhl hque hque <;> simp [*]

/-- An event comes into the queue when it is queued, and leaves it when it is acknowledged. -/
theorem lookup_iff_waiting (events : List Event) :
    (run events).queue.lookup set.jti = some ⟨set.jws, t⟩ ↔ Waiting events set t := by
  induction events with
  | nil => simp [run, Waiting]
  | cons e earlier ih =>
    rw [Waiting, ← ih]
    cases e with
    | enqueue new now =>
      simp only [run, Stream.apply, Event.enqueue.injEq, reduceCtorEq, false_imp_iff, implies_true,
        and_true]
      rcases enqueue_spec (run earlier) new now with ⟨hkp, hnew, hqu⟩ | ⟨hdr, hsm⟩
      · rw [hqu, Entries.lookup_insert]
        split_ifs with hjti
        · constructor
          · intro h
            obtain ⟨hjws, rfl⟩ : new.jws = set.jws ∧ now = t := by simpa using h
            obtain rfl : new = set := QueuedSet.ext hjti.symm hjws
            exact .inr ⟨⟨rfl, rfl⟩, hkp, hnew⟩
          · rintro (h | ⟨⟨rfl, rfl⟩, -⟩)
            · simp [Entries.contains, ← hjti, h] at hnew
            · rfl
        · refine ⟨.inl, fun h => h.resolve_right ?_⟩
          rintro ⟨⟨rfl, -⟩, -⟩
          exact hjti rfl
      · rw [hsm]
        refine ⟨.inl, fun h => h.resolve_right ?_⟩
        rintro ⟨⟨rfl, rfl⟩, hkp⟩
        exact hdr hkp
    | poll => simp [run, Stream.apply]
    | remove jtis =>
      have hlk :=
        Entries.lookup_filter (fun jti => decide (jti ∉ jtis)) (run earlier).queue set.jti
      simp only [run, Stream.apply, Stream.remove, hlk]
      by_cases hjti : set.jti ∈ jtis <;> simp [hjti]
    | setStatus => simp [run, Stream.apply]

theorem sorted_run (events : List Event) : Entries.Sorted (run events).queue := by
  induction events with
  | nil => exact .nil
  | cons e earlier ih =>
    cases e with
    | enqueue set now =>
      rcases enqueue_spec (run earlier) set now with ⟨-, -, hqu⟩ | ⟨-, hsm⟩
      · exact hqu ▸ ih.insert _ _
      · exact (congrArg Stream.queue hsm).symm ▸ ih
    | remove => exact ih.filter _
    | poll limit | setStatus status => exact ih

theorem sets_ne_nil {limit : ℕ} (hlim : 0 < limit) :
    (s.deliver limit).sets ≠ [] ↔ s.status = .enabled ∧ s.queue ≠ [] := by
  simp only [Stream.deliver, ne_eq, ← List.length_eq_zero_iff, List.length_map]
  split_ifs with h <;> simp [h, hlim.ne']

/-- Of an enabled stream something is left when what a poll returned is acknowledged, if the poll
did not return everything. -/
theorem moreAvailable_iff (hs : Entries.Sorted s.queue) (hena : s.status = .enabled)
    (limit : ℕ) : (s.deliver limit).moreAvailable = true ↔
      (s.remove ((s.deliver limit).sets.map QueuedSet.jti)).queue ≠ [] := by
  simp only [Stream.deliver, Stream.remove, if_pos hena, decide_eq_true_eq, ne_eq,
    List.filter_eq_nil_iff, not_forall, not_not, List.map_map, exists_prop]
  have hpm := s.queue.mergeSort_perm fun x y => age x ≤ age y
  rw [← List.take_append_drop limit (s.queue.mergeSort _)] at hpm
  have hks := (hpm.map Prod.fst).nodup_iff.2 (List.pairwise_map.2 hs.pairwise_ne)
  rw [List.map_append, List.nodup_append] at hks
  rw [← hpm.length_eq, List.length_append, Nat.lt_add_right_iff_pos, List.length_pos_iff_exists_mem]
  constructor
  · rintro ⟨entry, hent⟩
    exact ⟨entry, hpm.mem_iff.1 (List.mem_append_right _ hent),
      fun h => hks.2.2 _ h _ (List.mem_map_of_mem hent) rfl⟩
  · rintro ⟨entry, hent, hkey⟩
    refine ⟨entry, (List.mem_append.1 (hpm.mem_iff.2 hent)).resolve_left fun h => ?_⟩
    exact hkey (List.mem_map_of_mem h)

/-- **What polls return.**  After any sequence of events, a poll of an enabled stream returns the
first `limit` of the events that wait, in the order of their age. -/
theorem polls_return (events : List Event) : ∃ rows : List (QueuedSet × ℤ),
    rows.Pairwise (fun x y => toLex (x.2, x.1.jti) < toLex (y.2, y.1.jti)) ∧
    (∀ set t, (set, t) ∈ rows ↔ Waiting events set t) ∧ ∀ limit s, run events = s →
      (s.deliver limit).sets = (if s.status = .enabled then rows.take limit else []).map Prod.fst ∧
      ((∀ limit', 0 < limit' → ((s.deliver limit).moreAvailable = true ↔
          ((s.remove ((s.deliver limit).sets.map QueuedSet.jti)).deliver limit').sets ≠ [])) ↔
        s.status = .enabled ∨ s.queue = []) := by
  have hs := sorted_run events
  have hpm := (run events).queue.mergeSort_perm fun x y => age x ≤ age y
  have hle := @List.pairwise_mergeSort _ (fun x y => age x ≤ age y)
    (by simpa using fun _ _ _ _ _ _ => le_trans) (by simpa using fun _ _ _ _ => le_total _ _)
    (run events).queue
  have hne := (hpm.pairwise_iff fun h => h.symm).2 hs.pairwise_ne
  refine ⟨((run events).queue.mergeSort fun x y => age x ≤ age y).map fun e =>
    (⟨e.1, e.2.jws⟩, e.2.queuedAt), List.pairwise_map.2 (hle.imp₂ ?_ hne), fun set t => ?_, ?_⟩
  · intro x y hle hne
    exact lt_of_le_of_ne (of_decide_eq_true hle) fun h => hne (congrArg (fun a => (ofLex a).2) h)
  · rw [← lookup_iff_waiting, hs.lookup_iff_mem, ← hpm.mem_iff, List.mem_map]
    constructor
    · rintro ⟨entry, hent, ⟨⟩⟩
      exact hent
    · exact fun h => ⟨_, h, rfl⟩
  · rintro limit s rfl
    refine ⟨?_, ?_⟩
    · simp only [Stream.deliver]
      split_ifs <;> simp [Function.comp_def]
    · by_cases hena : (run events).status = .enabled
      · simp only [hena, true_or, iff_true]
        intro limit' hlim'
        rw [moreAvailable_iff hs hena, sets_ne_nil hlim']
        exact (and_iff_right hena).symm
      · simp only [Stream.deliver, Stream.remove, hena]
        simpa using ⟨fun h => h 1 one_pos, fun h _ _ => h⟩

/-- A paused stream that holds an event. -/
theorem more_available_while_paused :
    (run [.setStatus .paused, .enqueue ⟨"a", "jws"⟩ 0]).deliver 10 = ⟨[], true⟩ := by
  decide

end AsteriusIdp.Ssf
