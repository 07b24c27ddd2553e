import AsteriusIdp.Lib.Transition

/-!
# The limit about one person

A backchannel request reads the counter of its person's bucket, is refused or let through on what it
read, and then adds one to the counter, or to the marker of the first refusal.  Requests about one
person overlap, and the count that the increment returns is not looked at.

* `guardSubject_bounded` : the bound on the requests let through and on the records of a refusal,
  for requests that do not overlap between their reading and their increment.
-/

namespace AsteriusIdp.Limits

open Transition

/-- The window is in nanoseconds, as instants are. -/
structure RateLimit where
  max : ℕ
  window : ℤ

/-- Windows are aligned to the epoch. -/
def RateLimit.windowStart (limit : RateLimit) (now : ℤ) : ℤ :=
  let seconds := limit.window.tdiv (10 ^ 9)
  if seconds ≤ 0 then now else now - now % 10 ^ 9 - now / 10 ^ 9 % seconds * 10 ^ 9

/-- There is room for one more. -/
def RateLimit.admits (limit : RateLimit) (counted : ℕ) : Bool := counted < limit.max

/-- The bucket of a user. -/
def endpointSubjectBucket (sha256Hex : String → String) (subject : String) : String :=
  "ep:backchannel:subject:" ++ sha256Hex subject

/-- The bucket of its audit mark. -/
def auditedOnceBucket (bucket : String) : String := "audited:" ++ bucket

/-- What is counted. -/
structure Key where
  tenant : String
  bucket : String
  windowStart : ℤ
  deriving DecidableEq

/-- The counter of audit marks. -/
def Key.marker (key : Key) : Key := { key with bucket := auditedOnceBucket key.bucket }

/-- A request about a person. -/
structure Request where
  tenant : String
  subject : String
  now : ℤ

/-- Where a request stands. -/
inductive Phase where
  | waiting
  | admitted
  | refused
  | ended

/-- The counters, how far the requests have come, and for each bucket and window how many were let
through and how many refusals were recorded in the trail. -/
structure State where
  counters : Key → ℕ
  phase : ℕ → Phase
  passed : Key → ℕ
  throttled : Key → ℕ

/-- Nothing is counted. -/
def State.init : State :=
  { counters := 0, phase := fun _ => .waiting, passed := 0, throttled := 0 }

/-- The statements of the guard.  Nothing reads the trail, so that a refusal is recorded in one step
with its marker; the record may fail. -/
inductive Event where
  | count (id : ℕ)
  | record (id : ℕ)
  | firstRefusal (id : ℕ) (recorded : Bool)

/-- One more. -/
def add (counts : Key → ℕ) (key : Key) : Key → ℕ :=
  Function.update counts key (counts key + 1)

@[grind =] theorem add_apply (counts : Key → ℕ) (key other : Key) :
    add counts key other = if other = key then counts key + 1 else counts other :=
  Function.update_apply counts key _ other

/-- The digest of a subject, the limit in force and the requests. -/
structure Guard where
  sha256Hex : String → String
  limit : RateLimit
  request : ℕ → Request

namespace Guard

variable (guard : Guard)

/-- The counter of a request. -/
def keyOf (request : Request) : Key :=
  { tenant := request.tenant, bucket := endpointSubjectBucket guard.sha256Hex request.subject,
    windowStart := guard.limit.windowStart request.now }

/-- The same, by number. -/
def key (id : ℕ) : Key := guard.keyOf (guard.request id)

/-- The statements of a request. -/
def guardSubject (s : State) : Event → Option State
  | .count id =>
    match s.phase id with
    | .waiting => some { s with
        phase := Function.update s.phase id
          (if guard.limit.admits (s.counters (guard.key id)) then .admitted else .refused) }
    | _ => none
  | .record id =>
    match s.phase id with
    | .admitted => some { s with
        counters := add s.counters (guard.key id)
        phase := Function.update s.phase id .ended
        passed := add s.passed (guard.key id) }
    | _ => none
  | .firstRefusal id recorded =>
    match s.phase id with
    | .refused => some { s with
        counters := add s.counters (guard.key id).marker
        phase := Function.update s.phase id .ended
        throttled :=
          if s.counters (guard.key id).marker + 1 = 1 ∧ recorded then
            add s.throttled (guard.key id)
          else s.throttled }
    | _ => none

/-- All interleavings. -/
def requests : System State Event := .ofPartial guard.guardSubject

/-- No request reads a counter that another one has read and not yet added to. -/
def Alone (s : State) : Event → Prop
  | .count id => ∀ other, s.phase other = .admitted → guard.key other ≠ guard.key id
  | _ => True

/-- The invariant of the counters. -/
structure Sound (s : State) : Prop where
  passed : ∀ key, s.passed key ≤ s.counters key ∧ s.passed key ≤ guard.limit.max
  throttled : ∀ key, s.throttled key ≤ s.counters key.marker ∧ s.throttled key ≤ 1
  alone : ∀ i j, s.phase i = .admitted → s.phase j = .admitted → guard.key i = guard.key j → i = j
  room : ∀ i, s.phase i = .admitted → s.counters (guard.key i) < guard.limit.max

/-- A marker is not a counter of requests. -/
theorem marker_key_ne (i j : ℕ) : (guard.key i).marker ≠ guard.key j := by
  intro heq
  have hbu : "audited:" ++ (guard.key i).bucket =
      "ep:backchannel:subject:" ++ guard.sha256Hex (guard.request j).subject :=
        congrArg Key.bucket heq
  have hls := congrArg String.toList hbu
  rw [String.toList_append, String.toList_append,
    show "audited:".toList = 'a' :: "udited:".toList by decide +kernel,
    show "ep:backchannel:subject:".toList = 'e' :: "p:backchannel:subject:".toList by
      decide +kernel] at hls
  exact absurd (List.cons.inj hls).1 (by decide)

variable {guard} {s s' : State}

theorem Sound.step {event : Event} (h : guard.Sound s) (hst : guard.guardSubject s event = some s')
    (haln : guard.Alone s event) : guard.Sound s' := by
  obtain ⟨hpas, hthr, huq, hro⟩ := h
  cases event with
  | count =>
    simp only [guardSubject] at hst
    split at hst <;> cases hst
    refine ⟨hpas, hthr, fun i j hi hj hkey => ?_, fun i hi => ?_⟩
    · grind [Alone]
    · grind [RateLimit.admits]
  | record id =>
    simp only [guardSubject] at hst
    split at hst <;> cases hst
    next hadm =>
    refine ⟨fun key => ?_, fun key => ?_, fun i j hi hj hkey => ?_, fun i hi => ?_⟩
    · grind
    · grind
    · grind [Function.update_apply]
    · grind
  | firstRefusal id =>
    simp only [guardSubject] at hst
    split at hst <;> cases hst
    refine ⟨fun key => ?_, fun key => ?_, fun i j hi hj hkey => ?_, fun i hi => ?_⟩
    · grind
    · grind
    · grind [Function.update_apply]
    · have hmk := guard.marker_key_ne id i
      grind

/-- **The bound of the guard.**  In every run in which no request reads a counter that another one
is about to add to, at most the maximum is let through about a person in a window, and one refusal
is recorded. -/
theorem guardSubject_bounded {events : List Event}
    (h : (guard.requests.restrict guard.Alone).Path .init events s) (person : Request) :
    s.passed (guard.keyOf person) ≤ guard.limit.max ∧ s.throttled (guard.keyOf person) ≤ 1 := by
  have hin : guard.Sound .init :=
    ⟨fun _ => ⟨le_rfl, Nat.zero_le _⟩, fun _ => ⟨le_rfl, Nat.zero_le _⟩, nofun, nofun⟩
  have hsnd : guard.Sound s := by
    refine h.invariant (fun _ _ _ hst hs => ?_) hin
    exact Sound.step hs hst.1 hst.2
  exact ⟨(hsnd.passed _).2, (hsnd.throttled _).2⟩

/-- A request about Ada. -/
def ada : Request := { tenant := "t", subject := "ada", now := 0 }

/-- Lets one request a minute through; all requests are about one person. -/
def once : Guard :=
  { sha256Hex := id, limit := { max := 1, window := 60 * 10 ^ 9 }, request := fun _ => ada }

/-- One request is let through and two are refused; the first refusal is recorded. -/
def refusals : List Event :=
  [.count 0, .record 0, .count 1, .firstRefusal 1 true, .count 2, .firstRefusal 2 true]

theorem guardSubject_bounded_refusals : ∃ s,
    (once.requests.restrict once.Alone).Path .init refusals s ∧ s.passed (once.keyOf ada) = 1 ∧
    s.throttled (once.keyOf ada) = 1 ∧ s.counters (once.keyOf ada).marker = 2 ∧
    s.passed (once.keyOf ada) ≤ once.limit.max ∧ s.throttled (once.keyOf ada) ≤ 1 := by
  have hp : (once.requests.restrict once.Alone).Path .init refusals _ :=
    .cons ⟨rfl, nofun⟩ <| .cons ⟨rfl, trivial⟩ <|
    .cons ⟨rfl, fun i h => by rcases i with _ | _ <;> cases h⟩ <| .cons ⟨rfl, trivial⟩ <|
    .cons ⟨rfl, fun i h => by rcases i with _ | _ | _ <;> cases h⟩ <| .cons ⟨rfl, trivial⟩ <|
    .nil _
  exact ⟨_, hp, rfl, rfl, rfl, guardSubject_bounded hp ada⟩

/-- Two requests that read the counter before either adds to it are both let through. -/
theorem two_let_through : ∃ s, once.requests.Path .init
    [.count 0, .count 1, .record 0, .record 1] s ∧ s.passed (once.keyOf ada) = 2 :=
  ⟨_, .of_foldlM rfl, rfl⟩

end Guard

end AsteriusIdp.Limits
