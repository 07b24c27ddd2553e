import AsteriusIdp.Audit.Chain
import AsteriusIdp.Audit.Record
import AsteriusIdp.Lib.Transition

/-!
# The audit trail in the store

Records are appended to their tenant's chain and removed by retention, which deletes what is older
than a cutoff.

* `append`, `purgeOlderThan`, `verifyChain` : the operations.
* `Linked` : every tenant's records are a chain.
* `verified_of_path` : every trail verifies whose events survive storage and whose purges cut off
  the front.
* `trail_misreported` : the runs that leave a trail which is reported as altered or out of place.
-/

namespace AsteriusIdp.Audit

open HashChain Transition

/-- A record with its hashes.  The order of the table is that of the identifiers. -/
structure Row extends StoredEvent where
  previous : EventHash
  current : EventHash

/-- The rows of all tenants. -/
abbrev Trail := List Row

namespace Trail

/-- The records of a tenant, the oldest first. -/
def ofTenant (rows : Trail) (tenant : String) : List Row := rows.filter (·.tenant = tenant)

/-- The hash the next record of a tenant follows. -/
def tip (rows : Trail) (tenant : String) : EventHash :=
  ((rows.ofTenant tenant).getLast?.map (·.current)).getD .genesis

section Operations

-- the hash, the rows the database takes, and what the reader's parser makes of a JSON column
variable (sha : Bytes → EventHash) (accepts : Row → Bool) (parse : Json → Option Json)

/-- The row of an event: it follows the tip of its tenant, and its hash covers what is stored. -/
def newRow (rows : Trail) (event : AuditEvent) : Row :=
  ⟨(asStored event).stored, rows.tip event.tenant,
    hash sha (rows.tip event.tenant) (asStored event)⟩

/-- Append an event to its tenant's chain; `none` when the database refuses the row. -/
def append (rows : Trail) (event : AuditEvent) : Option Trail :=
  -- a hash appears once in a tenant's chain
  if accepts (rows.newRow sha event) ∧
      ∀ row ∈ rows.ofTenant event.tenant, row.current ≠ (rows.newRow sha event).current then
    some (rows ++ [rows.newRow sha event])
  else none

/-- Delete the records of a tenant that are older than a cutoff. -/
def purgeOlderThan (rows : Trail) (tenant : String) (cutoff : ℤ) : Trail :=
  rows.filter fun row => ¬(row.tenant = tenant ∧ row.occurredAt < toTimestamptz cutoff)

/-- A record as the check sees it. -/
def link (row : Row) : Link :=
  ⟨(readEvent parse row.toStoredEvent).toOption, row.previous, row.current⟩

/-- What was verified. -/
structure VerifiedChain where
  records : ℕ
  /-- How many of them could not be read. -/
  unread : ℕ
  start : EventHash
  tip : EventHash
  deriving DecidableEq

/-- Check a tenant's chain from the oldest record that is left. -/
def verifyChain (rows : Trail) (tenant : String) : Except ChainError VerifiedChain := do
  let links := (rows.ofTenant tenant).map (link parse)
  let start := (links.head?.map (·.previous)).getD .genesis
  let tip ← verify sha links start
  pure ⟨links.length, links.countP (·.content.isNone), start, tip⟩

/-- What happens to the trail. -/
inductive Event where
  | append (event : AuditEvent)
  | purge (tenant : String) (cutoff : ℤ)

/-- The trail after an event. -/
def apply (rows : Trail) : Event → Option Trail
  | .append event => rows.append sha accepts event
  | .purge tenant cutoff => some (rows.purgeOlderThan tenant cutoff)

/-- The histories of the trail. -/
def system : System Trail Event := .ofPartial (apply sha accepts)

end Operations

/-! ### The chains -/

/-- What is older than the cutoff stands before what is not. -/
def Trimmable (rows : Trail) (tenant : String) (cutoff : ℤ) : Prop :=
  (rows.ofTenant tenant).Pairwise fun row row' =>
    row'.occurredAt < toTimestamptz cutoff → row.occurredAt < toTimestamptz cutoff

/-- The steps that keep a trail verifiable. -/
def Sound (rows : Trail) : Event → Prop
  | .append event => event.Recoverable
  | .purge tenant cutoff => rows.Trimmable tenant cutoff

/-- Every tenant's records are a chain. -/
def Linked (sha : Bytes → EventHash) (parse : Json → Option Json) (rows : Trail) : Prop :=
  ∀ tenant, ∃ start tip,
    Chained (hash sha) start ((rows.ofTenant tenant).map (link parse)) tip

variable {sha : Bytes → EventHash} {accepts : Row → Bool} {parse : Json → Option Json}
  {rows rows' : Trail}

theorem linked_nil : Linked sha parse [] := fun _ => ⟨.genesis, .genesis, .nil _⟩

theorem ofTenant_append (rows rows' : Trail) (tenant : String) :
    ofTenant (rows ++ rows') tenant = rows.ofTenant tenant ++ ofTenant rows' tenant :=
  List.filter_append ..

/-- A chain ends where the next record starts. -/
theorem chained_tip (h : Linked sha parse rows) (tenant : String) :
    ∃ start, Chained (hash sha) start ((rows.ofTenant tenant).map (link parse))
      (rows.tip tenant) := by
  obtain ⟨start, _, hcha⟩ := h tenant
  unfold Trail.tip
  rcases List.eq_nil_or_concat (rows.ofTenant tenant) with hnil | ⟨_, _, hla⟩
  · rw [hnil]
    exact ⟨.genesis, .nil _⟩
  · rw [List.concat_eq_append] at hla
    rw [hla, List.map_append] at hcha
    rw [hla, List.map_append, List.getLast?_concat]
    obtain ⟨-, -, rfl⟩ := hcha.concat
    exact ⟨start, hcha⟩

variable {event : AuditEvent}

theorem append_eq_some (h : rows.append sha accepts event = some rows') :
    rows' = rows ++ [rows.newRow sha event] := by
  unfold append at h
  split_ifs at h
  exact (Option.some.inj h).symm

theorem ofTenant_newRow (rows : Trail) (event : AuditEvent) (tenant : String) :
    ofTenant [rows.newRow sha event] tenant =
      if event.tenant = tenant then [rows.newRow sha event] else [] := by
  split_ifs with hten
  · exact List.filter_cons_of_pos (decide_eq_true hten)
  · exact List.filter_cons_of_neg (mt of_decide_eq_true hten)

section

variable (hparse : ∀ j j', parse j = some j' → j' = j)
include hparse

variable {event : AuditEvent}

/-- What is read of a record that was just written. -/
theorem readEvent_of_mem {e : AuditEvent}
    (he : e ∈ (link parse (rows.newRow sha event)).content) : e = (asStored event).reread := by
  simp only [link, newRow] at he
  cases hcs : readEvent parse (asStored event).stored with
  | error => simp [hcs, Except.toOption] at he
  | ok e' =>
    obtain rfl : e' = e := by simpa [hcs, Except.toOption] using he
    exact readEvent_stored hparse hcs

/-- An event that survives storage is read back as it was hashed. -/
theorem sealed_of_recoverable
    (h : event.Recoverable) : (link parse (rows.newRow sha event)).Sealed (hash sha) := by
  intro _ he
  rw [readEvent_of_mem hparse he, reread_asStored_iff.2 h]
  rfl

theorem Linked.append (hrs : Linked sha parse rows) (heve : event.Recoverable)
    (h : rows.append sha accepts event = some rows') : Linked sha parse rows' := by
  obtain rfl := append_eq_some h
  intro tenant
  rw [ofTenant_append, ofTenant_newRow, List.map_append]
  split_ifs with hten
  · subst hten
    obtain ⟨start, hcha⟩ := chained_tip hrs event.tenant
    exact ⟨start, _, hcha.append (.single (sealed_of_recoverable hparse heve))⟩
  · obtain ⟨start, tip, hcha⟩ := hrs tenant
    rw [List.map_nil, List.append_nil]
    exact ⟨start, tip, hcha⟩

end

/-- What is left of a list is its end, when what is removed stands before what is not. -/
theorem exists_append_filter {α : Type*} {l : List α} {p : α → Bool}
    (h : l.Pairwise fun a b => p b = true → p a = true) :
    ∃ removed, l = removed ++ l.filter (fun a => !p a) := by
  induction l with
  | nil => exact ⟨[], rfl⟩
  | cons a l ih =>
    obtain ⟨hhd, hrs⟩ := List.pairwise_cons.1 h
    by_cases ha : p a = true
    · obtain ⟨removed, hrem⟩ := ih hrs
      refine ⟨a :: removed, ?_⟩
      rw [List.filter_cons_of_neg (by simp [ha]), List.cons_append, ← hrem]
    · -- the first that is kept is followed by nothing that is removed
      have hkp : ∀ b ∈ l, p b = false := by
        intro b hb
        by_contra hne
        exact ha (hhd b hb (by simpa using hne))
      refine ⟨[], ?_⟩
      rw [List.nil_append, List.filter_eq_self.2]
      intro b hb
      rcases List.mem_cons.1 hb with rfl | hb
      · simpa using ha
      · simp [hkp b hb]

theorem ofTenant_purge (rows : Trail) (tenant tenant' : String) (cutoff : ℤ) :
    (rows.purgeOlderThan tenant cutoff).ofTenant tenant' =
      if tenant' = tenant then
        (rows.ofTenant tenant').filter fun row => !decide (row.occurredAt < toTimestamptz cutoff)
      else rows.ofTenant tenant' := by
  unfold ofTenant purgeOlderThan
  split_ifs with hten
  · subst hten
    rw [List.filter_filter, List.filter_filter]
    refine List.filter_congr fun row _ => ?_
    by_cases hrow : row.tenant = tenant'
    · simp [hrow, ← decide_not]
    · simp [hrow]
  · rw [List.filter_filter]
    refine List.filter_congr fun row _ => ?_
    by_cases hrow : row.tenant = tenant'
    · simp [hrow, hten]
    · simp [hrow]

variable {tenant : String}

theorem Linked.purge (hrs : Linked sha parse rows) {cutoff : ℤ} (h : rows.Trimmable tenant cutoff) :
    Linked sha parse (rows.purgeOlderThan tenant cutoff) := by
  intro tenant'
  obtain ⟨start, tip, hcha⟩ := hrs tenant'
  rw [ofTenant_purge]
  split_ifs with hten
  · subst hten
    obtain ⟨removed, hrem⟩ := exists_append_filter
      (p := fun row : Row => decide (row.occurredAt < toTimestamptz cutoff))
      (h.imp fun hle hold => by simpa using hle (by simpa using hold))
    rw [hrem, List.map_append] at hcha
    obtain ⟨middle, -, hkp⟩ := hcha.split
    exact ⟨middle, tip, hkp⟩
  · exact ⟨start, tip, hcha⟩

theorem exists_verifyChain (h : Linked sha parse rows) (tenant : String) :
    ∃ verified, verifyChain sha parse rows tenant = .ok verified := by
  obtain ⟨_, tip, hcha⟩ := h tenant
  have hver : verify sha ((rows.ofTenant tenant).map (link parse))
      ((((rows.ofTenant tenant).map (link parse)).head?.map (·.previous)).getD .genesis) =
        .ok (if rows.ofTenant tenant = [] then .genesis else tip) := by
    rw [verify_ok]
    cases hls : rows.ofTenant tenant with
    | nil => exact .nil _
    | cons =>
      rw [hls] at hcha
      cases hcha with
      | cons hsld hrs => exact .cons hsld hrs
  simp only [verifyChain, hver]
  exact ⟨_, rfl⟩

/-- **Verification of the trail.**  The trail of every tenant verifies in every run that appends
events which survive storage and purges only what stands in front. -/
theorem verified_of_path {sha : Bytes → EventHash} {accepts : Row → Bool}
    {parse : Json → Option Json} (hparse : ∀ j j', parse j = some j' → j' = j)
    {events : List Event} {rows : Trail}
    (h : ((system sha accepts).restrict Sound).Path [] events rows) (tenant : String) :
    ∃ verified, verifyChain sha parse rows tenant = .ok verified := by
  refine exists_verifyChain (h.invariant (I := Linked sha parse) ?_ linked_nil) tenant
  rintro _ event _ ⟨hst, hsnd⟩ hrs
  cases event with
  | append => exact hrs.append hparse hsnd hst
  | purge =>
    cases hst
    exact hrs.purge hsnd

/-- The database takes a row whose hash is new. -/
theorem append_of_fresh (hacc : accepts (rows.newRow sha event) = true)
    (hfr : ∀ row ∈ rows.ofTenant event.tenant, row.current ≠ (rows.newRow sha event).current) :
    (system sha accepts).step rows (.append event) (rows ++ [rows.newRow sha event]) :=
  if_pos ⟨hacc, hfr⟩

theorem recoverable_login (user : String) (at_ : ℤ) : (login user at_).Recoverable :=
  ⟨fun _ h => absurd h nofun, fun _ h => absurd h List.not_mem_nil⟩

/-- Two logins, of which retention removes the first. -/
theorem verified_of_path_purged : ∃ rows,
    ((system digest fun _ => true).restrict Sound).Path []
      [.append (login "ann" 1000), .append (login "bob" 2000), .purge "t" 2000] rows ∧
    rows.length = 1 ∧ ∃ verified, verifyChain digest some rows "t" = .ok verified := by
  let first : Trail := [newRow digest [] (login "ann" 1000)]
  let second : Trail := first ++ [newRow digest first (login "bob" 2000)]
  have hfst : (system digest fun _ => true).step [] (.append (login "ann" 1000)) first :=
    append_of_fresh rfl fun _ h => absurd h List.not_mem_nil
  have hsec : (system digest fun _ => true).step first (.append (login "bob" 2000)) second :=
    append_of_fresh rfl (by decide +kernel)
  have htr : second.Trimmable "t" 2000 := by
    unfold Trimmable
    decide +kernel
  have hp : ((system digest fun _ => true).restrict Sound).Path []
      [.append (login "ann" 1000), .append (login "bob" 2000), .purge "t" 2000]
      (second.purgeOlderThan "t" 2000) :=
    .cons ⟨hfst, recoverable_login _ _⟩
      (.cons ⟨hsec, recoverable_login _ _⟩ (.cons ⟨rfl, htr⟩ (.nil _)))
  exact ⟨_, hp, by decide +kernel,
    verified_of_path (fun _ _ h => (Option.some.inj h).symm) hp "t"⟩

/-! ### What verification misreports -/

/-- A login under a grant whose identifier is written in capitals. -/
def capitalGrant : AuditEvent :=
  { login "ann" 0 with grant := some "67E55044-10B1-426F-9247-BB680E5FE0C8" }

/-- A login with a note that looks like a digest. -/
def digestNote : AuditEvent :=
  { login "ann" 0 with detail := Detail.empty.label "note" "sha256:abc" }

theorem link_newRow (rows : Trail) (event : AuditEvent) :
    link some (rows.newRow sha event) = ⟨some (asStored event).reread, rows.tip event.tenant,
      hash sha (rows.tip event.tenant) (asStored event)⟩ := by
  simp only [link, newRow, readEvent_some]
  rfl

/-- A record that is read back otherwise than it was hashed is reported as altered. -/
theorem verifyChain_altered
    (hne : hash sha .genesis (asStored event).reread ≠ hash sha .genesis (asStored event)) :
    verifyChain sha some [newRow sha [] event] event.tenant =
      .error (.altered 0 (hash sha .genesis (asStored event))
        (hash sha .genesis (asStored event).reread)) := by
  have htip : tip [] event.tenant = .genesis := rfl
  have hrs : ofTenant [newRow sha [] event] event.tenant = [newRow sha [] event] := by
    rw [ofTenant_newRow, if_pos rfl]
  simp only [verifyChain, hrs, List.map_singleton, link_newRow, htip, List.head?_cons,
    Option.map_some, Option.getD_some, verify, verifyFrom, checkLink, ne_eq, not_true_eq_false, hne,
    not_false_eq_true, if_true]
  rfl

/-- A record that does not follow the one before it is reported as out of place. -/
theorem verifyChain_gap {first later : Row} (hfst : first.tenant = tenant)
    (hlat : later.tenant = tenant) (hsld : (link parse first).Sealed (hash sha))
    (hgap : later.previous ≠ first.current) :
    verifyChain sha parse [first, later] tenant =
      .error (.broken 1 later.previous first.current) := by
  have hrs : ofTenant [first, later] tenant = [first, later] := by
    simp [ofTenant, hfst, hlat]
  have hchk : checkLink sha 0 (link parse first) (link parse first).previous = .ok () :=
    checkLink_ok.2 ⟨rfl, hsld⟩
  have hbr : checkLink sha 1 (link parse later) (link parse first).current =
      .error (.broken 1 later.previous first.current) := if_pos hgap
  simp only [verifyChain, hrs, List.map_cons, List.head?_cons, Option.map_some, Option.getD_some,
    verify, verifyFrom, hchk, hbr]
  rfl

/-- The hashes of three logins, of which the second happened first. -/
def lateHashes (sha : Bytes → EventHash) : List EventHash :=
  let first := hash sha .genesis (login "ann" 2000)
  let second := hash sha first (login "bob" 1000)
  [first, second, hash sha second (login "eve" 3000)]

/-- **False alarms.**  An event whose grant is not spelled as storage spells it, or with a text
that looks like a digest, hashes to something else once it is read back, and its record is reported
as altered.  A purge that removes a record between two that stay has the later of them reported as
out of place.  So it is for every hash that separates the messages. -/
theorem trail_misreported :
    (∀ event ∈ [capitalGrant, digestNote],
      canonicalBytes (asStored event).reread ≠ canonicalBytes (asStored event) ∧
      ∀ sha : Bytes → EventHash,
        hash sha .genesis (asStored event).reread ≠ hash sha .genesis (asStored event) →
        ∃ rows, (system sha fun _ => true).Path [] [.append event] rows ∧
        verifyChain sha some rows "t" = .error (.altered 0
          (hash sha .genesis (asStored event)) (hash sha .genesis (asStored event).reread))) ∧
    ∀ sha : Bytes → EventHash, (lateHashes sha).Nodup →
      ∃ rows first second, (system sha fun _ => true).Path []
          [.append (login "ann" 2000), .append (login "bob" 1000), .append (login "eve" 3000),
            .purge "t" 2000] rows ∧
        verifyChain sha some rows "t" = .error (.broken 1 second first) := by
  refine ⟨fun event heve => ⟨?_, fun sha hne => ?_⟩, fun sha hdi => ?_⟩
  · revert event
    decide +kernel
  · have hten : ∀ event ∈ [capitalGrant, digestNote], event.tenant = "t" := by decide +kernel
    refine ⟨[newRow sha [] event], .cons ?_ (.nil _), ?_⟩
    · exact append_of_fresh rfl fun _ h => absurd h List.not_mem_nil
    · rw [← hten event heve]
      exact verifyChain_altered hne
  · let ann := newRow sha [] (login "ann" 2000)
    let bob := newRow sha [ann] (login "bob" 1000)
    let eve := newRow sha [ann, bob] (login "eve" 3000)
    have hha : lateHashes sha = [ann.current, bob.current, eve.current] := rfl
    have hle : purgeOlderThan [ann, bob, eve] "t" 2000 = [ann, eve] := rfl
    rw [hha] at hdi
    simp only [List.nodup_cons, List.mem_cons, List.not_mem_nil, or_false, not_or] at hdi
    obtain ⟨⟨hab, hae⟩, hbe, -⟩ := hdi
    have hfst : (system sha fun _ => true).step [] (.append (login "ann" 2000)) [ann] :=
      append_of_fresh rfl fun _ h => absurd h List.not_mem_nil
    have hsec : (system sha fun _ => true).step [ann] (.append (login "bob" 1000)) [ann, bob] := by
      refine append_of_fresh rfl fun row hrow => ?_
      rw [List.mem_singleton.1 (List.mem_of_mem_filter hrow)]
      exact hab
    have hthi : (system sha fun _ => true).step [ann, bob] (.append (login "eve" 3000))
        [ann, bob, eve] := by
      refine append_of_fresh rfl fun row hrow => ?_
      rcases List.mem_pair.1 (List.mem_of_mem_filter hrow) with rfl | rfl
      · exact hae
      · exact hbe
    refine ⟨[ann, eve], ann.current, bob.current, ?_, ?_⟩
    · exact .cons hfst (.cons hsec (.cons hthi (.cons (congrArg some hle) (.nil _))))
    · have hsld : (link some ann).Sealed (hash sha) :=
        sealed_of_recoverable (fun _ _ h => (Option.some.inj h).symm) (recoverable_login _ _)
      exact verifyChain_gap rfl rfl hsld (Ne.symm hab)

end Trail

end AsteriusIdp.Audit
