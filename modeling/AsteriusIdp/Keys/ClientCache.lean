import AsteriusIdp.Lib.Transition

/-!
# The cache of a client's published keys

The keys of a client are fetched from a URL it registered.  A lookup is answered from the cache
under a lock, or reserves an attempt, asks the shared backoff and fetches; what came of it is
written under the lock again.  Between the two the lock is free, so lookups overlap, and each may be
abandoned by its caller.  The entry of one client is modelled; attempts and fetches are dated by the
instant of their lookup.

* `resolve_serves` : a fresh key set is served for as long as no refresh fails.
* `attempts_spaced` : attempts keep their distance and no stale set is returned, if every attempt
  ends before the next one is reserved and no lookup meets a set that expired long ago.
-/

namespace AsteriusIdp.ClientKeys

open Transition

/-- How long answers are kept. -/
structure CacheLimits where
  ttl : ℤ
  negativeTtl : ℤ
  minRefreshInterval : ℤ

/-- Ten minutes for keys, one for a failure and between two attempts. -/
def CacheLimits.default : CacheLimits :=
  { ttl := 600, negativeTtl := 60, minRefreshInterval := 60 }

/-- What is known of a client's keys. -/
inductive Known (K : Type) where
  | keys (keys : K) (expiresAt : ℤ)
  | failed (retryAt : ℤ)

/-- The cache entry of a client. -/
structure Entry (K : Type) where
  uri : String
  state : Known K
  lastAttempt : ℤ

/-- What a lookup does under the lock. -/
inductive Answer (K : Type) where
  /-- It returns a key set, or that none is available. -/
  | returned (result : Option K)
  /-- It leaves this entry and attempts a fetch. -/
  | attempt (entry : Entry K)

/-- A lookup that reserved an attempt: it waits for the shared backoff, then for the fetch. -/
structure Flight where
  uri : String
  now : ℤ
  fetching : Bool

/-- The cache entry, the lookups under way, and what happened so far, the latest first. -/
structure Cache (K : Type) where
  entry : Option (Entry K)
  clock : ℤ
  flights : ℕ → Option Flight
  /-- When the latest attempt was reserved. -/
  latest : Option ℤ
  /-- The attempts, less those that the shared backoff stopped before a fetch. -/
  attempts : List ℤ
  /-- The successful fetches: the URL, when each began, and the key set. -/
  fetched : List (String × ℤ × K)
  /-- The key sets that lookups returned, and when they were asked for. -/
  answers : List (ℤ × K)

/-- One atomic step of a lookup. -/
inductive Event (K : Type) where
  | lookup (id : ℕ) (uri : String) (kid : Option String) (now : ℤ)
  | backoff (id : ℕ) (retryAt : Option ℤ)
  | finish (id : ℕ) (parsed : Option K)
  | abandon (id : ℕ)

variable {K : Type}

/-- Nothing is cached. -/
def Cache.empty : Cache K :=
  { entry := none, clock := 0, flights := fun _ => none, latest := none, attempts := [],
    fetched := [], answers := [] }

section

variable (limits : CacheLimits) (contains : K → String → Bool)

/-- Can the entry answer a lookup? -/
def Entry.serves (entry : Entry K) (kid : Option String) (now : ℤ) : Bool :=
  match entry.state with
  | .keys keys expiresAt => now < expiresAt && kid.all (contains keys)
  | .failed _ => false

/-- Whatever the entry holds. -/
def Entry.keys (entry : Entry K) : Option K :=
  match entry.state with
  | .keys keys _ => some keys
  | .failed _ => none

/-- The entry is a failure that is still remembered. -/
def Entry.backsOff (entry : Entry K) (now : ℤ) : Bool :=
  match entry.state with
  | .keys _ _ => false
  | .failed retryAt => now < retryAt

/-- A lookup under the lock.  An entry of another URL is forgotten. -/
def resolveUri (entry : Option (Entry K)) (uri : String) (kid : Option String) (now : ℤ) :
    Answer K :=
  match entry.filter (·.uri = uri) with
  | none => .attempt { uri, state := .failed (now + limits.negativeTtl), lastAttempt := now }
  | some entry =>
    if entry.serves contains kid now then .returned entry.keys
    else if entry.backsOff now then .returned none
    else if now - entry.lastAttempt < limits.minRefreshInterval then .returned entry.keys
    else .attempt { entry with lastAttempt := now }

/-- Takes another replica's failure as this one's, unless the keys are still good. -/
def adoptSharedBackoff (entry : Option (Entry K)) (uri : String) (retryAt now : ℤ) :
    Option K × Entry K :=
  match entry.filter (·.serves contains none now) with
  | some entry => (entry.keys, entry)
  | none => (none,
      { uri, state := .failed retryAt, lastAttempt := min (retryAt - limits.negativeTtl) now })

/-- What the outcome of a fetch leaves in the cache. -/
def outcome (uri : String) (parsed : Option K) (now : ℤ) : Entry K :=
  { uri, lastAttempt := now
    state := match parsed with
      | some keys => .keys keys (now + limits.ttl)
      | none => .failed (now + limits.negativeTtl) }

/-- A lookup returns. -/
def Cache.answer (s : Cache K) (now : ℤ) (result : Option K) : Cache K :=
  { s with answers := (result.map (now, ·)).toList ++ s.answers }

/-- The atomic steps of the lookups.  The clock does not go back. -/
inductive Step : Cache K → Event K → Cache K → Prop
  | answered {s : Cache K} {id : ℕ} {uri : String} {kid : Option String} {now : ℤ}
      {result : Option K} : s.clock ≤ now →
    resolveUri limits contains s.entry uri kid now = .returned result →
    Step s (.lookup id uri kid now) ({ s with clock := now }.answer now result)
  | reserved {s : Cache K} {id : ℕ} {uri : String} {kid : Option String} {now : ℤ}
      {entry : Entry K} : s.clock ≤ now → s.flights id = none →
    resolveUri limits contains s.entry uri kid now = .attempt entry →
    Step s (.lookup id uri kid now)
      { s with
        entry := some entry, clock := now, latest := some now, attempts := now :: s.attempts
        flights := Function.update s.flights id (some ⟨uri, now, false⟩) }
  | fetching {s : Cache K} {id : ℕ} {uri : String} {now : ℤ} {retryAt : Option ℤ} :
    s.flights id = some ⟨uri, now, false⟩ → (∀ t ∈ retryAt, t ≤ now) →
    Step s (.backoff id retryAt)
      { s with flights := Function.update s.flights id (some ⟨uri, now, true⟩) }
  | adopted {s : Cache K} {id : ℕ} {uri : String} {now retryAt : ℤ} :
    s.flights id = some ⟨uri, now, false⟩ → now < retryAt →
    Step s (.backoff id (some retryAt))
      ({ s with
          entry := some (adoptSharedBackoff limits contains s.entry uri retryAt now).2
          attempts := s.attempts.filter (· ≠ now)
          flights := Function.update s.flights id none }.answer now
        (adoptSharedBackoff limits contains s.entry uri retryAt now).1)
  | finished {s : Cache K} {id : ℕ} {uri : String} {now : ℤ} {parsed : Option K} :
    s.flights id = some ⟨uri, now, true⟩ →
    Step s (.finish id parsed)
      ({ s with
          entry := some (outcome limits uri parsed now)
          fetched := (parsed.map (uri, now, ·)).toList ++ s.fetched
          flights := Function.update s.flights id none }.answer now parsed)
  | abandoned {s : Cache K} {id : ℕ} :
    Step s (.abandon id) { s with flights := Function.update s.flights id none }

/-- The cache of one client. -/
def cache : System (Cache K) (Event K) := ⟨Step limits contains⟩

end

variable {limits : CacheLimits} {contains : K → String → Bool} {uri : String} {s s' : Cache K}
  {event : Event K}

/-! ### Under one registered URL -/

/-- The event is not a lookup for another URL. -/
def Event.For (uri : String) : Event K → Prop
  | .lookup _ u _ _ => u = uri
  | _ => True

/-- Everything is about the one URL, and no lookup is ahead of the clock. -/
structure Steady (uri : String) (s : Cache K) : Prop where
  entry : ∀ entry ∈ s.entry, entry.uri = uri
  flights : ∀ id, ∀ flight ∈ s.flights id, flight.uri = uri ∧ flight.now ≤ s.clock

variable {entry : Option (Entry K)} {kid : Option String} {now timeout : ℤ}

/-- When a lookup attempts a fetch, and which entry it leaves meanwhile. -/
theorem resolveUri_attempt
    {next : Entry K} (h : resolveUri limits contains entry uri kid now = .attempt next) :
    (entry.filter (·.uri = uri) = none ∧
      next = { uri, state := .failed (now + limits.negativeTtl), lastAttempt := now }) ∨
    ∃ found, entry = some found ∧ found.uri = uri ∧ next = { found with lastAttempt := now } ∧
    found.backsOff now = false ∧ found.lastAttempt + limits.minRefreshInterval ≤ now := by
  unfold resolveUri at h
  split at h
  · next hno =>
    cases h
    exact .inl ⟨hno, rfl⟩
  · next found heq =>
    obtain ⟨hent, huri⟩ := Option.filter_eq_some_iff.1 heq
    split_ifs at h with _ hbac hra
    cases h
    exact .inr ⟨found, hent, of_decide_eq_true huri, rfl, by simpa using hbac, by omega⟩

/-- Where the key set that a lookup returns comes from. -/
theorem resolveUri_returned {keys : K}
    (h : resolveUri limits contains entry uri kid now = .returned (some keys)) :
    ∃ found expiresAt, entry = some found ∧ found.uri = uri ∧ found.state = .keys keys expiresAt ∧
    (now < expiresAt ∨ now - found.lastAttempt < limits.minRefreshInterval) := by
  unfold resolveUri at h
  split at h
  · cases h
  · next found heq =>
    obtain ⟨hent, huri⟩ := Option.filter_eq_some_iff.1 heq
    have hks : ∀ keys', found.keys = some keys' → ∃ expiresAt,
        found.state = .keys keys' expiresAt := by
      unfold Entry.keys
      grind
    split_ifs at h with hsv _ hra
    · obtain ⟨expiresAt, hst⟩ := hks keys (Answer.returned.inj h)
      rw [Entry.serves, hst, Bool.and_eq_true] at hsv
      exact ⟨found, expiresAt, hent, of_decide_eq_true huri, hst, .inl (of_decide_eq_true hsv.1)⟩
    · cases h
    · obtain ⟨expiresAt, hst⟩ := hks keys (Answer.returned.inj h)
      exact ⟨found, expiresAt, hent, of_decide_eq_true huri, hst, .inr hra⟩

/-- An entry that serves is kept and answers; another one is replaced by the failure. -/
theorem adoptSharedBackoff_cases (entry : Option (Entry K)) (retryAt now : ℤ) :
    (∃ found keys expiresAt, entry = some found ∧ found.state = .keys keys expiresAt ∧
      now < expiresAt ∧
      adoptSharedBackoff limits contains entry uri retryAt now = (some keys, found)) ∨
    ((∀ found ∈ entry, ∀ keys expiresAt, found.state = .keys keys expiresAt → expiresAt ≤ now) ∧
      adoptSharedBackoff limits contains entry uri retryAt now = (none,
        { uri, state := .failed retryAt,
          lastAttempt := min (retryAt - limits.negativeTtl) now })) := by
  unfold adoptSharedBackoff
  split
  · next found heq =>
    obtain ⟨hent, hsv⟩ := Option.filter_eq_some_iff.1 heq
    unfold Entry.serves at hsv
    split at hsv
    · next keys expiresAt hst =>
      exact .inl ⟨found, keys, expiresAt, hent, hst, by simpa using hsv,
        by rw [Entry.keys, hst]⟩
    · cases hsv
  · next hno =>
    refine .inr ⟨fun found hent keys expiresAt hst => ?_, rfl⟩
    have hnot := Option.filter_eq_none_iff.1 hno found hent
    simpa [Entry.serves, hst] using hnot

theorem mem_update {flights : ℕ → Option Flight} {id i : ℕ} {new : Option Flight} {flight : Flight}
    (h : flight ∈ Function.update flights id new i) : flight ∈ new ∨ flight ∈ flights i := by
  rw [Function.update_apply] at h
  split_ifs at h
  · exact .inl h
  · exact .inr h

theorem Steady.step (h : Steady uri s) (hst : Step limits contains s event s')
    (hfor : event.For uri) : Steady uri s' := by
  cases hst with
  | answered hclk =>
    exact ⟨h.entry, fun id flight hf => (h.flights id flight hf).imp_right (le_trans · hclk)⟩
  | reserved hclk _ hatt =>
    cases hfor
    refine ⟨?_, fun id flight hf => ?_⟩
    · rintro _ ⟨⟩
      rcases resolveUri_attempt hatt with ⟨-, rfl⟩ | ⟨found, -, huri, rfl, -⟩
      · rfl
      · exact huri
    · rcases mem_update hf with hf | hf
      · cases hf
        exact ⟨rfl, le_rfl⟩
      · exact (h.flights id flight hf).imp_right (le_trans · hclk)
  | fetching hfl _ =>
    refine ⟨h.entry, fun id flight hf => ?_⟩
    rcases mem_update hf with hf | hf
    · cases hf
      exact ⟨(h.flights _ _ hfl).1, (h.flights _ _ hfl).2⟩
    · exact h.flights id flight hf
  | adopted hfl _ =>
    refine ⟨?_, fun id flight hf => h.flights id flight ((mem_update hf).resolve_left nofun)⟩
    rintro _ ⟨⟩
    rcases adoptSharedBackoff_cases s.entry _ _ with ⟨found, _, _, hent, -, -, heq⟩ | ⟨-, heq⟩
    · rw [heq]
      exact h.entry found hent
    · rw [heq]
      exact (h.flights _ _ hfl).1
  | finished hfl =>
    refine ⟨?_, fun id flight hf => h.flights id flight ((mem_update hf).resolve_left nofun)⟩
    rintro _ ⟨⟩
    exact (h.flights _ _ hfl).1
  | abandoned =>
    exact ⟨h.entry, fun id flight hf => h.flights id flight ((mem_update hf).resolve_left nofun)⟩

/-! ### A fresh key set is served -/

/-- A lookup for the URL, or a fetch that does not fail while the cache holds fresh keys. -/
def Event.Sparing (uri : String) (s : Cache K) (event : Event K) : Prop :=
  event.For uri ∧ ∀ id, event = .finish id none → ∀ flight ∈ s.flights id, ∀ entry ∈ s.entry,
    ∀ keys expiresAt, entry.state = .keys keys expiresAt → expiresAt ≤ flight.now

/-- A lookup is for the URL and does not meet, soon after the last attempt, a set that expired more
than a fetch timeout ago; an attempt fails or ends before a later one is reserved. -/
def Event.Undisturbed (limits : CacheLimits) (timeout : ℤ) (uri : String) (s : Cache K) :
    Event K → Prop
  | .lookup _ u _ now => u = uri ∧ ∀ entry ∈ s.entry, ∀ keys expiresAt,
      entry.state = .keys keys expiresAt → now - entry.lastAttempt < limits.minRefreshInterval →
      now ≤ expiresAt + timeout
  | .backoff id retryAt => ∀ flight ∈ s.flights id, ∀ t ∈ retryAt, flight.now < t →
      s.latest = some flight.now
  | .finish id _ => ∀ flight ∈ s.flights id, s.latest = some flight.now
  | .abandon _ => True

/-- The last key set that was fetched is in the cache, or its time is over. -/
structure Served (limits : CacheLimits) (uri : String) (s : Cache K) : Prop where
  steady : Steady uri s
  held : ∀ fetch ∈ s.fetched.head?, s.clock < fetch.2.1 + limits.ttl →
    ∃ entry ∈ s.entry, entry.state = .keys fetch.2.2 (fetch.2.1 + limits.ttl)

theorem Served.step (h : Served limits uri s) (hstep : Step limits contains s event s')
    (hsp : event.Sparing uri s) : Served limits uri s' := by
  refine ⟨h.steady.step hstep hsp.1, ?_⟩
  cases hstep with
  | answered hclk =>
    exact fun fetch hfet hfr => h.held fetch hfet (hclk.trans_lt hfr)
  | reserved hclk _ hatt =>
    intro fetch hfet hfr
    obtain ⟨entry, hent, hst⟩ := h.held fetch hfet (hclk.trans_lt hfr)
    refine ⟨_, rfl, ?_⟩
    rcases resolveUri_attempt hatt with ⟨hno, -⟩ | ⟨found, hfd, -, rfl, -⟩
    · have hfor := hsp.1
      cases hfor
      exact absurd (h.steady.entry entry hent)
        (by simpa using Option.filter_eq_none_iff.1 hno entry hent)
    · cases hent.symm.trans hfd
      exact hst
  | fetching => exact h.held
  | adopted hfl _ =>
    intro fetch hfet hfr
    obtain ⟨entry, hent, hst⟩ := h.held fetch hfet hfr
    have hnow := (h.steady.flights _ _ hfl).2
    refine ⟨_, rfl, ?_⟩
    rcases adoptSharedBackoff_cases s.entry _ _ with ⟨_, _, _, hfd, -, -, heq⟩ | ⟨hold, -⟩
    · rw [heq]
      cases hent.symm.trans hfd
      exact hst
    · exact absurd (hold entry hent _ _ hst) (not_le.2 (hnow.trans_lt hfr))
  | @finished id _ _ parsed hfl =>
    intro fetch hfet hfr
    cases parsed with
    | some =>
      cases hfet
      exact ⟨_, rfl, rfl⟩
    | none =>
      obtain ⟨entry, hent, hst⟩ := h.held fetch hfet hfr
      have hold := hsp.2 id rfl _ hfl entry hent _ _ hst
      exact absurd (hold.trans (h.steady.flights _ _ hfl).2) (not_le.2 hfr)
  | abandoned => exact h.held

/-- **A fresh key set is served.**  If every lookup is for the registered URL and no refresh fails
while the cache holds fresh keys, a lookup for a key of the set that was fetched last, less than
the TTL ago, returns a set with that key, whatever other lookups were made. -/
theorem resolve_serves {events : List (Event K)}
    (h : ((cache limits contains).restrict fun s event => event.Sparing uri s).Path .empty events s)
    {fetch : String × ℤ × K} {kid : String} {now : ℤ} (hfetch : s.fetched.head? = some fetch)
    (hclock : s.clock ≤ now) (hfresh : now < fetch.2.1 + limits.ttl)
    (hkid : contains fetch.2.2 kid = true) :
    ∃ keys, resolveUri limits contains s.entry uri (some kid) now = .returned (some keys) ∧
    contains keys kid = true := by
  have hsv : Served limits uri s := by
    have hsta : Served limits uri (.empty : Cache K) := ⟨⟨nofun, nofun⟩, nofun⟩
    refine h.invariant (I := Served limits uri) (fun s event s' hstep hs => ?_) hsta
    exact hs.step hstep.1 hstep.2
  obtain ⟨entry, hent, hst⟩ := hsv.held fetch hfetch (hclock.trans_lt hfresh)
  refine ⟨fetch.2.2, ?_, hkid⟩
  have huri := hsv.steady.entry entry hent
  have hser : entry.serves contains (some kid) now = true := by
    simp [Entry.serves, hst, hfresh, hkid]
  simp [resolveUri, Option.mem_def.1 hent, Option.filter_some, huri, hser, Entry.keys, hst]

/-- A first lookup that fetches the key `a`. -/
def firstFetch : List (Event (List String)) :=
  [.lookup 0 "u" none 0, .backoff 0 none, .finish 0 (some ["a"])]

/-- The key `a` is fetched, and again for an unknown key; another lookup for that key comes too soon
and a third one is abandoned. -/
def refreshes : List (Event (List String)) :=
  firstFetch ++ [.lookup 1 "u" (some "b") 100, .backoff 1 none, .finish 1 (some ["a"]),
    .lookup 2 "u" (some "b") 130, .lookup 3 "u" (some "b") 200, .abandon 3]

theorem refreshes_path : ∃ s, ((cache .default (·.contains ·)).restrict fun s event =>
      event.Sparing "u" s ∧ event.Undisturbed .default 5 "u" s).Path .empty refreshes s ∧
    s.fetched.head? = some ("u", 100, ["a"]) ∧ s.clock = 200 ∧ s.attempts = [200, 100, 0] ∧
    s.answers = [(130, ["a"]), (100, ["a"]), (0, ["a"])] := by
  refine ⟨_, .cons ⟨.reserved le_rfl rfl rfl, ⟨rfl, nofun⟩, rfl, nofun⟩ <|
    .cons ⟨.fetching rfl nofun, ⟨trivial, nofun⟩, fun _ _ => nofun⟩ <|
    .cons ⟨.finished rfl, ⟨trivial, nofun⟩, ?_⟩ <|
    .cons ⟨.reserved (by decide : (0 : ℤ) ≤ 100) rfl rfl, ⟨rfl, nofun⟩, rfl, ?_⟩ <|
    .cons ⟨.fetching rfl nofun, ⟨trivial, nofun⟩, fun _ _ => nofun⟩ <|
    .cons ⟨.finished rfl, ⟨trivial, nofun⟩, ?_⟩ <|
    .cons ⟨.answered (by decide : (100 : ℤ) ≤ 130) rfl, ⟨rfl, nofun⟩, rfl, ?_⟩ <|
    .cons ⟨.reserved (by decide : (130 : ℤ) ≤ 200) rfl rfl, ⟨rfl, nofun⟩, rfl, ?_⟩ <|
    .cons ⟨.abandoned, ⟨trivial, nofun⟩, trivial⟩ <| .nil _, rfl, rfl, rfl, rfl⟩
  · rintro _ ⟨⟩
    rfl
  · rintro _ ⟨⟩ _ _ ⟨⟩ _
    decide
  · rintro _ ⟨⟩
    rfl
  · rintro _ ⟨⟩ _ _ ⟨⟩ _
    decide
  · rintro _ ⟨⟩ _ _ ⟨⟩ _
    decide

theorem resolve_serves_refreshed : ∃ s keys,
    ((cache .default (·.contains ·)).restrict fun s event => event.Sparing "u" s).Path .empty
      refreshes s ∧ s.fetched.head? = some ("u", 100, ["a"]) ∧
    resolveUri .default (·.contains ·) s.entry "u" (some "a") 699 = .returned (some keys) ∧
    keys.contains "a" = true := by
  obtain ⟨s, hp, hfet, hclk, -⟩ := refreshes_path
  have hp : ((cache .default (·.contains ·)).restrict fun s event =>
      event.Sparing "u" s).Path .empty refreshes s := by
    refine hp.mono fun _ _ _ h => ?_
    exact ⟨h.1, h.2.1⟩
  have hkid : ["a"].contains "a" = true := rfl
  obtain ⟨keys, hsv, hks⟩ := resolve_serves hp hfet (hclk.trans_le (by decide : (200 : ℤ) ≤ 699))
    (by decide) hkid
  exact ⟨s, keys, hp, hfet, hsv, hks⟩

theorem firstFetch_run : ∃ s, (cache .default (·.contains ·)).Path .empty firstFetch s ∧
    s.entry = some ⟨"u", .keys ["a"] 600, 0⟩ ∧ s.fetched = [("u", 0, ["a"])] ∧ s.clock = 0 ∧
    ∀ id, s.flights id = none := by
  refine ⟨_, .cons (.reserved le_rfl rfl rfl) (.cons (.fetching rfl nofun)
    (.cons (.finished rfl) (.nil _))), rfl, rfl, rfl, fun id => ?_⟩
  cases id <;> rfl

/-- A lookup for an unknown key whose refresh fails takes the fresh keys out of the cache. -/
theorem unknown_kid_locks_out : ∃ events, ∃ s : Cache (List String),
    (cache .default (·.contains ·)).Path .empty events s ∧ (∀ event ∈ events, event.For "u") ∧
    s.fetched.head? = some ("u", 0, ["a"]) ∧ s.clock ≤ 101 ∧
    resolveUri .default (·.contains ·) s.entry "u" (some "a") 101 = .returned none := by
  obtain ⟨s, hp, hent, hfet, hclk, hid⟩ := firstFetch_run
  have hres : resolveUri .default (·.contains ·) s.entry "u" (some "b") 100 =
      .attempt ⟨"u", .keys ["a"] 600, 100⟩ := by
    rw [hent]
    rfl
  have hfa : (cache .default (·.contains ·)).Path s
      [.lookup 1 "u" (some "b") 100, .backoff 1 none, .finish 1 none] _ :=
    .cons (.reserved (by omega) (hid 1) hres)
      (.cons (.fetching rfl nofun) (.cons (.finished rfl) (.nil _)))
  refine ⟨_, _, hp.append hfa, ?_, ?_, ?_, rfl⟩
  · simp [firstFetch, Event.For]
  · exact congrArg List.head? hfet
  · exact (by decide : (100 : ℤ) ≤ 101)

/-! ### Attempts keep their distance -/

theorem Event.Undisturbed.for (h : event.Undisturbed limits timeout uri s) : event.For uri := by
  cases event with
  | lookup => exact h.1
  | _ => trivial

/-- The attempts are apart from each other, from the latest one, and from the next one that the
entry lets through. -/
structure Spaced (limits : CacheLimits) (s : Cache K) : Prop where
  apart : s.attempts.Pairwise fun later earlier => earlier + limits.minRefreshInterval ≤ later
  latest : ∀ begun ∈ s.attempts, ∃ latest ∈ s.latest,
    begun = latest ∨ begun + limits.minRefreshInterval ≤ latest
  gated : ∀ begun ∈ s.attempts, ∃ entry ∈ s.entry, ∀ now, entry.backsOff now = false →
    entry.lastAttempt + limits.minRefreshInterval ≤ now → begun + limits.minRefreshInterval ≤ now

theorem Spaced.step (hin : 0 ≤ limits.minRefreshInterval) (h : Spaced limits s)
    (hste : Steady uri s) (hst : Step limits contains s event s')
    (hcd : event.Undisturbed limits timeout uri s) : Spaced limits s' := by
  cases hst with
  | answered => exact ⟨h.apart, h.latest, h.gated⟩
  | @reserved _ _ _ now next _ _ hatt =>
    obtain ⟨rfl, -⟩ := hcd
    have hopen : ∀ begun ∈ s.attempts, begun + limits.minRefreshInterval ≤ now := by
      intro begun hbeg
      obtain ⟨entry, hent, hga⟩ := h.gated begun hbeg
      rcases resolveUri_attempt hatt with ⟨hno, -⟩ | ⟨found, hfd, -, -, hbac, hra⟩
      · exact absurd (hste.entry entry hent)
          (by simpa using Option.filter_eq_none_iff.1 hno entry hent)
      · cases hent.symm.trans hfd
        exact hga now hbac hra
    have hla : next.lastAttempt = now := by
      rcases resolveUri_attempt hatt with ⟨-, rfl⟩ | ⟨found, -, -, rfl, -⟩ <;> rfl
    refine ⟨List.pairwise_cons.2 ⟨hopen, h.apart⟩, fun begun hbeg => ⟨now, rfl, ?_⟩,
      fun begun hbeg => ⟨next, rfl, fun t _ ht => ?_⟩⟩
    · exact (List.mem_cons.1 hbeg).imp_right (hopen begun)
    · rcases List.mem_cons.1 hbeg with rfl | hbeg
      · exact hla ▸ ht
      · have := hopen begun hbeg
        omega
  | fetching => exact ⟨h.apart, h.latest, h.gated⟩
  | @adopted _ _ now retryAt hfl hlat =>
    have hlst : s.latest = some now := hcd _ hfl retryAt rfl hlat
    refine ⟨h.apart.filter _, fun begun hbeg => h.latest begun (List.mem_of_mem_filter hbeg),
      fun begun hbeg => ?_⟩
    obtain ⟨hmem, hne⟩ := List.mem_filter.1 hbeg
    refine ⟨_, rfl, ?_⟩
    rcases adoptSharedBackoff_cases s.entry retryAt now with
      ⟨found, _, _, hfd, -, -, heq⟩ | ⟨-, heq⟩
    · obtain ⟨entry, hent, hga⟩ := h.gated begun hmem
      rw [heq]
      cases hent.symm.trans hfd
      exact hga
    · -- the attempt that ends here is the latest, so the others are an interval before it
      obtain ⟨latest, hl, hbef⟩ := h.latest begun hmem
      cases hl.symm.trans hlst
      rw [heq]
      intro t hbac _
      have hret : retryAt ≤ t := by simpa [Entry.backsOff] using hbac
      have := hbef.resolve_left (of_decide_eq_true hne)
      omega
  | @finished _ _ now _ hfl =>
    have hlst : s.latest = some now := hcd _ hfl
    refine ⟨h.apart, h.latest, fun begun hbeg => ⟨_, rfl, fun t _ ht => ?_⟩⟩
    obtain ⟨latest, hl, hbef⟩ := h.latest begun hbeg
    cases hl.symm.trans hlst
    have ht : now + limits.minRefreshInterval ≤ t := ht
    omega
  | abandoned => exact ⟨h.apart, h.latest, h.gated⟩

/-- The key sets that the cache holds and those that were returned come from fetches of the URL. -/
structure Recent (limits : CacheLimits) (timeout : ℤ) (uri : String) (s : Cache K) : Prop where
  held : ∀ entry ∈ s.entry, ∀ keys expiresAt, entry.state = .keys keys expiresAt →
    ∃ begun, (uri, begun, keys) ∈ s.fetched ∧ expiresAt = begun + limits.ttl
  answers : ∀ answer ∈ s.answers, ∃ begun, (uri, begun, answer.2) ∈ s.fetched ∧
    answer.1 - begun ≤ limits.ttl + timeout

theorem mem_answer {result : Option K} {answer : ℤ × K}
    (h : answer ∈ (s.answer now result).answers) :
    (∃ keys, result = some keys ∧ answer = (now, keys)) ∨ answer ∈ s.answers := by
  rcases List.mem_append.1 h with h | h
  · cases result with
    | none => cases h
    | some keys => exact .inl ⟨keys, rfl, by simpa using h⟩
  · exact .inr h

theorem Recent.step (htim : 0 ≤ timeout) (httl : 0 ≤ limits.ttl) (h : Recent limits timeout uri s)
    (hste : Steady uri s) (hstep : Step limits contains s event s')
    (hcd : event.Undisturbed limits timeout uri s) : Recent limits timeout uri s' := by
  cases hstep with
  | @answered _ _ _ now _ _ hret =>
    refine ⟨h.held, fun answer hmem => ?_⟩
    rcases mem_answer hmem with ⟨keys, rfl, rfl⟩ | hmem
    · obtain ⟨found, expiresAt, hfd, -, hst, hfr⟩ := resolveUri_returned hret
      obtain ⟨begun, hfet, rfl⟩ := h.held found hfd keys expiresAt hst
      have hage : now ≤ begun + limits.ttl + timeout := by
        rcases hfr with hfr | hra
        · omega
        · exact hcd.2 found hfd keys _ hst hra
      exact ⟨begun, hfet, by simp only; omega⟩
    · exact h.answers answer hmem
  | reserved _ _ hatt =>
    refine ⟨?_, h.answers⟩
    rintro _ ⟨⟩ keys expiresAt hst
    rcases resolveUri_attempt hatt with ⟨-, rfl⟩ | ⟨found, hfd, -, rfl, -⟩
    · cases hst
    · exact h.held found hfd keys expiresAt hst
  | fetching => exact ⟨h.held, h.answers⟩
  | @adopted _ _ now retryAt =>
    rcases adoptSharedBackoff_cases s.entry retryAt now with
      ⟨found, keys, expiresAt, hfd, hst, hfr, heq⟩ | ⟨-, heq⟩
    · rw [heq]
      refine ⟨?_, fun answer hmem => ?_⟩
      · rintro _ ⟨⟩
        exact h.held found hfd
      · rcases mem_answer hmem with ⟨_, ⟨⟩, rfl⟩ | hmem
        · obtain ⟨begun, hfet, rfl⟩ := h.held found hfd keys expiresAt hst
          exact ⟨begun, hfet, by simp only; omega⟩
        · exact h.answers answer hmem
    · rw [heq]
      refine ⟨?_, h.answers⟩
      rintro _ ⟨⟩ keys expiresAt hst
      cases hst
  | @finished _ _ now parsed hfl =>
    obtain rfl := (hste.flights _ _ hfl).1
    cases parsed with
    | none =>
      refine ⟨?_, h.answers⟩
      rintro _ ⟨⟩ keys expiresAt hst
      cases hst
    | some =>
      refine ⟨?_, fun answer hmem => ?_⟩
      · rintro _ ⟨⟩ _ _ ⟨⟩
        exact ⟨now, List.mem_cons_self, rfl⟩
      · rcases mem_answer hmem with ⟨_, ⟨⟩, rfl⟩ | hmem
        · exact ⟨now, List.mem_cons_self, by simp only; omega⟩
        · obtain ⟨begun, hfet, hage⟩ := h.answers answer hmem
          exact ⟨begun, List.mem_cons_of_mem _ hfet, hage⟩
  | abandoned => exact ⟨h.held, h.answers⟩

/-- **Attempts keep their distance.**  In every run whose steps are undisturbed, with lookups
overlapping and abandoned at will, two attempts are at least the minimum refresh interval apart, and
a key set is returned only if it comes from a successful fetch of the URL begun no longer ago than
the TTL and a fetch timeout. -/
theorem attempts_spaced {timeout : ℤ} {events : List (Event K)} (htimeout : 0 ≤ timeout)
    (httl : 0 ≤ limits.ttl) (hinterval : 0 ≤ limits.minRefreshInterval)
    (h : ((cache limits contains).restrict fun s event =>
      event.Undisturbed limits timeout uri s).Path .empty events s) :
    s.attempts.Pairwise (fun later earlier => earlier + limits.minRefreshInterval ≤ later) ∧
    ∀ answer ∈ s.answers, ∃ begun, (uri, begun, answer.2) ∈ s.fetched ∧
    answer.1 - begun ≤ limits.ttl + timeout := by
  have hinv : Steady uri s ∧ Spaced limits s ∧ Recent limits timeout uri s := by
    refine h.invariant (I := fun s => Steady uri s ∧ Spaced limits s ∧ Recent limits timeout uri s)
      (fun s event s' hst hs => ?_) ⟨⟨nofun, nofun⟩, ⟨.nil, nofun, nofun⟩, ⟨nofun, nofun⟩⟩
    obtain ⟨hste, hsp, hrec⟩ := hs
    exact ⟨hste.step hst.1 hst.2.for, hsp.step hinterval hste hst.1 hst.2,
      hrec.step htimeout httl hste hst.1 hst.2⟩
  exact ⟨hinv.2.1.apart, hinv.2.2.answers⟩

theorem attempts_spaced_refreshed : ∃ s, ((cache .default (·.contains ·)).restrict fun s event =>
      event.Undisturbed .default 5 "u" s).Path .empty refreshes s ∧
    s.attempts = [200, 100, 0] ∧ s.answers = [(130, ["a"]), (100, ["a"]), (0, ["a"])] ∧
    s.attempts.Pairwise (fun later earlier => earlier + 60 ≤ later) ∧
    ∀ answer ∈ s.answers, ∃ begun, ("u", begun, answer.2) ∈ s.fetched ∧
    answer.1 - begun ≤ 600 + 5 := by
  obtain ⟨s, hp, -, -, hatt, hans⟩ := refreshes_path
  have hp : ((cache .default (·.contains ·)).restrict fun s event =>
      event.Undisturbed .default 5 "u" s).Path .empty refreshes s := by
    refine hp.mono fun _ _ _ h => ?_
    exact ⟨h.1, h.2.2⟩
  exact ⟨s, hp, hatt, hans, attempts_spaced (by decide) (by decide) (by decide) hp⟩

/-- While one lookup refreshes a set that expired long ago, another one is answered with it. -/
theorem expired_set_returned : ∃ events, ∃ s : Cache (List String),
    (cache .default (·.contains ·)).Path .empty events s ∧ (∀ event ∈ events, event.For "u") ∧
    ∃ answer ∈ s.answers, ∀ fetch ∈ s.fetched,
      CacheLimits.default.ttl + 5 < answer.1 - fetch.2.1 := by
  obtain ⟨s, hp, hent, hfe, hclk, hid⟩ := firstFetch_run
  have hres : resolveUri .default (·.contains ·) s.entry "u" (some "a") 90000 =
      .attempt ⟨"u", .keys ["a"] 600, 90000⟩ := by
    rw [hent]
    rfl
  have hla : (cache .default (·.contains ·)).Path s
      [.lookup 1 "u" (some "a") 90000, .lookup 2 "u" (some "a") 90001] _ :=
    .cons (.reserved (by omega) (hid 1) hres)
      (.cons (.answered (by decide : (90000 : ℤ) ≤ 90001) rfl) (.nil _))
  refine ⟨_, _, hp.append hla, ?_, ?_⟩
  · simp [firstFetch, Event.For]
  · refine ⟨(90001, ["a"]), List.mem_cons_self, fun fetch hfet => ?_⟩
    have hfet : fetch ∈ s.fetched := hfet
    rw [hfe, List.mem_singleton] at hfet
    subst hfet
    decide

end AsteriusIdp.ClientKeys
