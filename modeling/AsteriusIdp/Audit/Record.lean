import AsteriusIdp.Audit.Event
import AsteriusIdp.Json
import AsteriusIdp.Lib.Fallible
import AsteriusIdp.Lib.Text
import AsteriusIdp.Lib.Uuid

/-!
# The stored form of an audit event

An event is stored in columns, some of them JSON, and read back from them.  A record that cannot be
read is reported with the column the reader stopped at.

* `AuditEvent.stored`, `readEvent` : the two directions.
* `readEvent_stored` : what an event is read back as.
* `asStored` : what is done to an event before it is hashed.
* `reread_asStored_iff` : the events that are then read back as they were hashed.
-/

namespace AsteriusIdp.Audit

open Fallible Entries

/-- A column of the table. -/
inductive Column where
  | eventType
  | outcome
  | actor
  | actorChain
  | detail
  deriving DecidableEq, Repr

/-- Why a stored record could not be turned back into an event. -/
inductive OpaqueReason where
  /-- The column is not JSON the reader can parse. -/
  | unparseable (column : Column)
  /-- The column has no shape the trail defines. -/
  | unrepresentable (column : Column)
  deriving DecidableEq, Repr

/-- The columns of a record, as storage holds them. -/
structure StoredEvent where
  tenant : String
  occurredAt : ℤ
  eventType : String
  outcome : String
  actor : Json
  actorChain : Json
  subject : Option String
  client : Option String
  session : Option String
  grant : Option Uuid
  requestId : Option String
  detail : Json

/-! ### Writing -/

/-- The column `actor`. -/
def actorJson (a : Actor) : Json :=
  let object : Object := Entries.insert (Entries.insert [] "type" (.str a.kind)) "id" (.str a.id)
  match a with
  | .agent _ onBehalfOf => .obj (Entries.insert object "on_behalf_of" (.str onBehalfOf))
  | _ => .obj object

/-- The column `actor_chain`. -/
def actorChainJson (chain : List Actor) : Json := .arr (chain.map actorJson)

/-- A digest is marked, to be told from a text. -/
def DetailValue.toJson : DetailValue → Json
  | .text s => .str s
  | .number n => .ofI64 n
  | .flag b => .bool b
  | .fingerprint digest => .str ("sha256:" ++ digest)

/-- The column `detail`. -/
def detailJson (d : Detail) : Json :=
  .obj (Entries.collect (d.entries.map fun entry => (entry.1, entry.2.toJson)))

/-- `timestamptz` counts microseconds from the year 2000. -/
def pgEpoch : ℤ := 946684800 * 1000000000

/-- Cut to microseconds. -/
def toTimestamptz (t : ℤ) : ℤ := pgEpoch + (t - pgEpoch).tdiv 1000 * 1000

/-- A column of type `uuid`. -/
def uuidOrNone (value : String) : Option Uuid := Uuid.parse value

/-- The columns of an event. -/
def AuditEvent.stored (e : AuditEvent) : StoredEvent :=
  { tenant := e.tenant, occurredAt := toTimestamptz e.occurredAt, eventType := e.eventType.name
    outcome := e.outcome.asStr, actor := actorJson e.actor
    actorChain := actorChainJson e.actorChain, subject := e.subject, client := e.client
    session := e.session, grant := e.grant.bind uuidOrNone, requestId := e.requestId
    detail := detailJson e.detail }

/-! ### Reading -/

/-- The type of a name. -/
def EventType.find (name : String) : Option EventType :=
  if h : name ∈ eventTypes then some ⟨name, h⟩ else none

/-- The outcome of a name. -/
def Outcome.parse : String → Option Outcome
  | "success" => some .success
  | "failure" => some .failure
  | _ => none

/-- The text under a name, empty when there is none. -/
def textMember (object : Object) (name : String) : String :=
  ((object.lookup name).bind Json.asStr).getD ""

/-- Read the column back. -/
def actorFromJson (column : Column) (v : Json) : Except OpaqueReason Actor := do
  let object ← okOr v.asObject (.unrepresentable column)
  okOr (Actor.ofParts (textMember object "type") (textMember object "id")
    (textMember object "on_behalf_of")) (.unrepresentable column)

/-- A text that is marked as a digest is read as one. -/
def readMember (d : Detail) (member : String × Json) : Except OpaqueReason Detail :=
  match member.2 with
  | .str s =>
    match Text.stripStart "sha256:" s with
    | some digest => .ok (d.rawFingerprint member.1 digest)
    | none => .ok (d.rawText member.1 s)
  | .num n => (fun k => d.number member.1 (Int64.ofInt k)) <$>
      okOr (Json.num n).asI64 (.unrepresentable .detail)
  | .bool b => .ok (d.flag member.1 b)
  | _ => .error (.unrepresentable .detail)

/-- Read the column back. -/
def detailFromJson (v : Json) : Except OpaqueReason Detail := do
  let object ← okOr v.asObject (.unrepresentable .detail)
  object.foldlM readMember .empty

section Reading

-- what the reader's parser makes of a JSON column
variable (parse : Json → Option Json)

/-- Parse the text of a column. -/
def parseColumn (column : Column) (v : Json) : Except OpaqueReason Json :=
  okOr (parse v) (.unparseable column)

/-- Rebuild an event from its columns. -/
def readEvent (stored : StoredEvent) : Except OpaqueReason AuditEvent := do
  let eventType ← okOr (EventType.find stored.eventType) (.unrepresentable .eventType)
  let outcome ← okOr (Outcome.parse stored.outcome) (.unrepresentable .outcome)
  let actor ← parseColumn parse .actor stored.actor
  let actor ← actorFromJson .actor actor
  let chain ← parseColumn parse .actorChain stored.actorChain
  let chain ← okOr chain.asArray (.unrepresentable .actorChain)
  let actorChain ← chain.mapM (actorFromJson .actorChain)
  let detail ← parseColumn parse .detail stored.detail
  let detail ← detailFromJson detail
  pure { tenant := stored.tenant, occurredAt := stored.occurredAt, eventType, outcome, actor
         actorChain, subject := stored.subject, client := stored.client
         session := stored.session, grant := stored.grant.map Uuid.text
         requestId := stored.requestId, detail }

end Reading

/-! ### What is read back -/

@[simp] theorem find_name (t : EventType) : EventType.find t.name = some t := dif_pos t.declared

@[simp] theorem parse_asStr (o : Outcome) : Outcome.parse o.asStr = some o := by
  cases o <;> rfl

@[simp] theorem actorFromJson_actorJson (column : Column) (a : Actor) :
    actorFromJson column (actorJson a) = .ok a := by
  cases a <;> rfl

theorem mapM_actorJson (column : Column) (chain : List Actor) :
    (chain.map actorJson).mapM (actorFromJson column) = .ok chain := by
  induction chain with
  | nil => rfl
  | cons a chain ih =>
    simp [ih, bind, Except.bind, pure, Except.pure]

/-- What a value is read back as. -/
def DetailValue.reread : DetailValue → DetailValue
  | .text s =>
    match Text.stripStart "sha256:" s with
    | some digest => .fingerprint digest
    | none => .text s
  | v => v

theorem reread_detailValue_eq_iff {v : DetailValue} :
    v.reread = v ↔ ∀ s, v = .text s → Text.stripStart "sha256:" s = none := by
  cases v with
  | text s =>
    cases hstr : Text.stripStart "sha256:" s <;> simp [DetailValue.reread, hstr]
  | number | flag | fingerprint => simp [DetailValue.reread]

theorem asI64_ofI64 (n : Int64) : (Json.ofI64 n).asI64 = some n.toInt := by
  unfold Json.ofI64
  split_ifs with h
  · have hsg : 0 ≤ n.toInt := Int64.le_iff_toInt_le.1 h
    have hlt := n.toInt_lt
    have hnat : n.toUInt64.toNat = n.toInt.toNat := Int64.toNat_toUInt64_of_le h
    have hft : n.toInt.toNat < 2 ^ 63 := by omega
    rw [Json.asI64, hnat, if_pos hft, Int.toNat_of_nonneg hsg]
  · rfl

theorem readMember_toJson (d : Detail) (key : String) (v : DetailValue) :
    readMember d (key, v.toJson) = .ok (d.insert key v.reread) := by
  cases v with
  | text s =>
    cases hstr : Text.stripStart "sha256:" s <;>
      simp [readMember, DetailValue.toJson, DetailValue.reread, hstr, Detail.rawText,
        Detail.rawFingerprint]
  | number n =>
    have hrd := asI64_ofI64 n
    obtain ⟨k, hk⟩ : ∃ k, Json.ofI64 n = .num k := ⟨_, rfl⟩
    rw [hk] at hrd
    simp [readMember, DetailValue.toJson, hk, hrd, okOr, DetailValue.reread, Detail.number]
  | flag => rfl
  | fingerprint =>
    simp [readMember, DetailValue.toJson, DetailValue.reread, Detail.rawFingerprint]

theorem sorted_mapSnd {α β : Type*} {m : Entries String α} (h : Sorted m) (f : α → β) :
    Sorted (m.map fun entry => (entry.1, f entry.2) : Entries String β) :=
  List.pairwise_map.2 h

/-- What a detail is read back as. -/
def Detail.reread (d : Detail) : Detail :=
  ⟨d.entries.map fun entry => (entry.1, entry.2.reread), sorted_mapSnd d.sorted _⟩

theorem foldlM_readMember (l : List (String × DetailValue)) (d : Detail) :
    (l.map fun entry => (entry.1, entry.2.toJson)).foldlM readMember d =
      .ok (l.foldl (fun d entry => d.insert entry.1 entry.2.reread) d) := by
  induction l generalizing d with
  | nil => rfl
  | cons entry l ih =>
    rw [List.map_cons, List.foldlM_cons, readMember_toJson]
    exact ih _

theorem entries_foldl_insert (l : List (String × DetailValue)) (d : Detail) :
    (l.foldl (fun d entry => d.insert entry.1 entry.2.reread) d).entries =
      insertAll d.entries (l.map fun entry => (entry.1, entry.2.reread)) := by
  induction l generalizing d with
  | nil => rfl
  | cons entry l ih =>
    rw [List.foldl_cons, ih]
    rfl

theorem detailFromJson_detailJson (d : Detail) : detailFromJson (detailJson d) = .ok d.reread := by
  have hwr := (sorted_mapSnd d.sorted DetailValue.toJson).collect_eq
  have hrd := (sorted_mapSnd d.sorted DetailValue.reread).collect_eq
  simp only [detailFromJson, detailJson, okOr, hwr]
  change List.foldlM readMember _ _ = _
  rw [foldlM_readMember]
  exact congrArg Except.ok (Detail.ext ((entries_foldl_insert d.entries .empty).trans hrd))

/-- What an event is read back as. -/
def AuditEvent.reread (e : AuditEvent) : AuditEvent :=
  { e with
    occurredAt := toTimestamptz e.occurredAt
    grant := (e.grant.bind uuidOrNone).map Uuid.text
    detail := e.detail.reread }

/-- **Reading back.**  What is read from the columns of an event, if its JSON parses as it was
written. -/
theorem readEvent_stored {parse : Json → Option Json} (hpar : ∀ j j', parse j = some j' → j' = j)
    {e e' : AuditEvent} (h : readEvent parse e.stored = .ok e') : e' = e.reread := by
  simp only [readEvent, AuditEvent.stored, parseColumn, bind_ok, okOr_ok, pure_ok,
    find_name, parse_asStr, Option.some.injEq] at h
  obtain ⟨_, rfl, _, rfl, _, hactor, _, ha, _, hchn, items, hit, _, hact, _, hdet, _, hd, rfl⟩ := h
  obtain rfl := hpar _ _ hactor
  obtain rfl := hpar _ _ hchn
  obtain rfl := hpar _ _ hdet
  obtain rfl : items = e.actorChain.map actorJson := (Option.some.inj hit).symm
  rw [actorFromJson_actorJson] at ha
  rw [mapM_actorJson] at hact
  rw [detailFromJson_detailJson] at hd
  cases ha
  cases hact
  cases hd
  rfl

/-- Where JSON parses as it was written, every record can be read. -/
theorem readEvent_some (e : AuditEvent) : readEvent some e.stored = .ok e.reread := by
  simp only [readEvent, bind_ok, okOr_ok, pure_ok]
  exact ⟨_, find_name _, _, parse_asStr _, _, rfl, _, actorFromJson_actorJson _ _, _, rfl, _, rfl,
    _, mapM_actorJson _ _, _, rfl, _, detailFromJson_detailJson _, rfl⟩

/-! ### The form that is hashed -/

/-- An instant cut to the microsecond, by its nanoseconds within the second. -/
def truncateMicros (t : ℤ) : ℤ := t - t % 1000000000 + t % 1000000000 / 1000 * 1000

/-- An event as storage will hold it: to the microsecond, and without a grant that is no UUID. -/
def asStored (e : AuditEvent) : AuditEvent :=
  { e with
    occurredAt := truncateMicros e.occurredAt
    grant := if e.grant.any fun g => (uuidOrNone g).isNone then none else e.grant }

theorem toTimestamptz_truncateMicros (t : ℤ) :
    toTimestamptz (truncateMicros t) = truncateMicros t := by
  have hmi : (1000 : ℤ) ∣ truncateMicros t - pgEpoch := by
    unfold truncateMicros pgEpoch
    omega
  rw [toTimestamptz, Int.tdiv_mul_cancel hmi]
  omega

/-- The spelling of the grant is the one it is read back in, and no text is read as a digest. -/
structure AuditEvent.Recoverable (e : AuditEvent) : Prop where
  grant : ∀ g ∈ e.grant, ∀ u ∈ uuidOrNone g, u.text = g
  detail : ∀ entry ∈ e.detail.entries, ∀ s, entry.2 = .text s →
    Text.stripStart "sha256:" s = none

theorem reread_grant_iff {grant : Option String} :
    ((if grant.any fun g => (uuidOrNone g).isNone then none else grant).bind uuidOrNone).map
        Uuid.text = (if grant.any fun g => (uuidOrNone g).isNone then none else grant) ↔
      ∀ g ∈ grant, ∀ u ∈ uuidOrNone g, u.text = g := by
  cases grant with
  | none => simp
  | some g => cases hpar : uuidOrNone g <;> simp [hpar]

theorem reread_detail_iff {d : Detail} :
    d.reread = d ↔ ∀ entry ∈ d.entries, ∀ s, entry.2 = .text s →
      Text.stripStart "sha256:" s = none := by
  rw [Detail.ext_iff]
  constructor
  · intro h entry hent
    have hmap := List.map_inj_left.1 (h.trans (List.map_id _).symm) entry hent
    exact reread_detailValue_eq_iff.1 (congrArg Prod.snd hmap)
  · intro h
    refine (List.map_inj_left.2 fun entry hent => ?_).trans (List.map_id _)
    exact Prod.ext rfl (reread_detailValue_eq_iff.2 (h entry hent))

/-- **What survives storage.** -/
theorem reread_asStored_iff {e : AuditEvent} :
    (asStored e).reread = asStored e ↔ e.Recoverable := by
  constructor
  · intro h
    exact ⟨reread_grant_iff.1 (congrArg AuditEvent.grant h),
      reread_detail_iff.1 (congrArg AuditEvent.detail h)⟩
  · intro h
    have hgr := reread_grant_iff.2 h.grant
    have hdet := reread_detail_iff.2 h.detail
    simp [AuditEvent.reread, asStored, toTimestamptz_truncateMicros, hgr, hdet]

end AsteriusIdp.Audit
