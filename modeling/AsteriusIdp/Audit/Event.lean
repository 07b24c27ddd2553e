import AsteriusIdp.Lib.Entries
import AsteriusIdp.Lib.Framing

/-!
# Audit events

An event of the audit trail, and the bytes that are hashed for it: every field is written as its
length in eight bytes and then its bytes, optional fields and values carry a tag, and lists their
count.

* `canonicalBytes` : the encoding.
* `canonicalBytes_inj` : it determines the event.
-/

namespace AsteriusIdp.Audit

open Framing

/-- The declared event types, as they are stored. -/
def eventTypes : List String :=
  ["par.accepted", "par.rejected", "auth.login", "auth.failed", "auth.throttled",
   "request.throttled", "credential.created", "credential.changed", "recovery.requested",
   "recovery.sent", "recovery.used", "recovery.refused", "email_verification.sent",
   "email_verification.verified", "email_verification.refused", "email_change.requested",
   "email_change.changed", "email_change.refused", "consent.granted", "consent.denied",
   "code.issued", "code.redeemed", "code.replayed", "token.issued", "test_token.requested",
   "test_token.issued", "vc.issued", "token.refused", "token.exchanged", "oid4vp.presented",
   "token.refreshed", "token.issuance_denied", "token.revoked", "token.introspected",
   "agent.task.approved", "agent.task.issued", "agent.task.withdrawn", "grant.revoked",
   "session.revoked", "client.authenticated", "client.auth_failed", "client.registered",
   "client.read", "client.updated", "client.deleted", "client.credential_rotated", "key.rotated",
   "key.purged", "key.schedule_applied", "subject.collision", "admin.changed", "user.created",
   "invitation.issued", "invitation.resent", "invitation.revoked", "invitation.activated",
   "invitation.assignments_applied", "user.claims_changed", "user.scim_profile_changed",
   "account.disabled", "account.enabled", "role.granted", "role.revoked", "app_role.defined",
   "app_role.removed", "app_role.assigned", "app_role.withdrawn", "policy.updated",
   "policy.simulated", "access.evaluated", "access.searched", "audit.purged",
   "backchannel.requested", "backchannel.refused", "backchannel.notified", "ssf.stream_created",
   "ssf.stream_updated", "ssf.stream_deleted", "ssf.sets_delivered", "ssf.sets_acknowledged",
   "ssf.set_rejected", "ssf.set_pushed", "ssf.push_refused", "ssf.stream_paused",
   "ssf.verification_requested", "outbox.retried", "outbound_scim.delivered",
   "outbound_scim.refused", "outbox.dropped", "ssf.stream_status_changed", "ssf.subject_added",
   "ssf.subject_removed", "id_jag.subject_bound", "id_jag.subject_unbound", "saml.sp_provisioned",
   "saml.sp_removed", "oidc.provider_saved", "workload.trust_saved", "workload.trust_deleted",
   "workload.verified", "workload.rejected", "oidc.provider_removed", "oidc.identity_created",
   "oidc.identity_linked", "oidc.identity_unlinked", "oidc.username_synced",
   "saml.idp_key_provisioned", "saml.idp_key_activated", "saml.idp_key_retired",
   "provider_command.delivered", "device.source_changed", "device.enrolled",
   "device.posture_updated", "device.removed"]

/-- What kind of thing happened. -/
structure EventType where
  name : String
  declared : name ∈ eventTypes
  deriving DecidableEq

/-- How an event ended. -/
inductive Outcome where
  | success
  | failure
  deriving DecidableEq, Repr

/-- Its stored name. -/
def Outcome.asStr : Outcome → String
  | success => "success"
  | failure => "failure"

/-- Who did it. -/
inductive Actor where
  | user (id : String)
  | client (id : String)
  /-- An agent, with the subject it acts for. -/
  | agent (client onBehalfOf : String)
  | admin (id : String)
  | system
  deriving DecidableEq, Repr

namespace Actor

/-- The stored name of the kind. -/
def kind : Actor → String
  | user _ => "user"
  | client _ => "client"
  | agent _ _ => "agent"
  | admin _ => "admin"
  | system => "system"

/-- The identifier, if there is one. -/
def id : Actor → String
  | user id | client id | agent id _ | admin id => id
  | system => ""

/-- For whom an agent acts. -/
def onBehalfOf : Actor → String
  | agent _ subject => subject
  | _ => ""

/-- The actor of a kind. -/
def ofParts (kind id onBehalfOf : String) : Option Actor :=
  match kind with
  | "user" => some (user id)
  | "client" => some (client id)
  | "agent" => some (agent id onBehalfOf)
  | "admin" => some (admin id)
  | "system" => some system
  | _ => none

@[simp] theorem ofParts_kind (a : Actor) : ofParts a.kind a.id a.onBehalfOf = some a := by
  cases a <;> rfl

end Actor

/-- A value of a detail. -/
inductive DetailValue where
  | text (s : String)
  | number (n : Int64)
  | flag (b : Bool)
  /-- The digest of a credential. -/
  | fingerprint (digest : String)
  deriving DecidableEq

/-- The free-form part of an event, by key. -/
@[ext]
structure Detail where
  entries : Entries String DetailValue
  sorted : Entries.Sorted entries

namespace Detail

instance : DecidableEq Detail := fun d d' =>
  decidable_of_iff (d.entries = d'.entries) (by cases d; cases d'; simp)

/-- No detail. -/
def empty : Detail := ⟨[], .nil⟩

/-- Set a member. -/
def insert (d : Detail) (key : String) (value : DetailValue) : Detail :=
  ⟨d.entries.insert key value, d.sorted.insert key value⟩

/-- A value of a closed set the server owns; it is not scanned for credentials. -/
def label (d : Detail) (key value : String) : Detail := d.insert key (.text value)

/-- Set a number. -/
def number (d : Detail) (key : String) (value : Int64) : Detail := d.insert key (.number value)

/-- Set a flag. -/
def flag (d : Detail) (key : String) (value : Bool) : Detail := d.insert key (.flag value)

/-- A text that is read back from storage. -/
def rawText (d : Detail) (key value : String) : Detail := d.insert key (.text value)

/-- A digest that is read back from storage. -/
def rawFingerprint (d : Detail) (key digest : String) : Detail := d.insert key (.fingerprint digest)

end Detail

/-- One record of the trail.  Instants are in nanoseconds; the offset they are written in is left
out, as the source's comparison of instants does. -/
structure AuditEvent where
  tenant : String
  occurredAt : ℤ
  eventType : EventType
  outcome : Outcome
  actor : Actor
  actorChain : List Actor
  subject : Option String
  client : Option String
  session : Option String
  grant : Option String
  requestId : Option String
  detail : Detail
  deriving DecidableEq

/-! ### The encoding -/

/-- Bytes with their length. -/
def field (bytes : Bytes) : Bytes := frame 8 bytes

/-- Absent and empty are told apart. -/
def optional : Option String → Bytes
  | some value => field (utf8 "1") ++ field (utf8 value)
  | none => field (utf8 "0")

/-- An actor as it is hashed. -/
def Actor.bytes (a : Actor) : Bytes :=
  field (utf8 a.kind) ++ (field (utf8 a.id) ++ field (utf8 a.onBehalfOf))

/-- A value as it is hashed. -/
def DetailValue.bytes : DetailValue → Bytes
  | .text s => field (utf8 "t") ++ field (utf8 s)
  | .number n => field (utf8 "n") ++ field (beInt 8 n.toInt)
  | .flag b => field (utf8 "b") ++ field [if b then 1 else 0]
  | .fingerprint digest => field (utf8 "f") ++ field (utf8 digest)

/-- A member as it is hashed. -/
def entryBytes (entry : String × DetailValue) : Bytes := field (utf8 entry.1) ++ entry.2.bytes

/-- A count, in a field of eight bytes, and the items. -/
def counted {α : Type*} (f : α → Bytes) (items : List α) : Bytes :=
  field (be 8 items.length) ++ items.flatMap f

/-- The bytes that are hashed for an event. -/
def canonicalBytes (e : AuditEvent) : Bytes :=
  field (utf8 e.tenant) ++ (field (beInt 16 e.occurredAt) ++ (field (utf8 e.eventType.name) ++
    (field (utf8 e.outcome.asStr) ++ (e.actor.bytes ++ (counted Actor.bytes e.actorChain ++
    (optional e.subject ++ (optional e.client ++ (optional e.session ++ (optional e.grant ++
    (optional e.requestId ++ counted entryBytes e.detail.entries))))))))))

/-! ### What a process can hold -/

/-- A text whose length is a 64-bit number. -/
def Short (s : String) : Prop := s.utf8ByteSize < 2 ^ 64

instance : DecidablePred Short := fun s => Nat.decLt s.utf8ByteSize (2 ^ 64)

/-- Its texts are short. -/
def Actor.Representable : Actor → Prop
  | .user id | .client id | .admin id => Short id
  | .agent id onBehalfOf => Short id ∧ Short onBehalfOf
  | .system => True

/-- Its text is short. -/
def DetailValue.Representable : DetailValue → Prop
  | .text s | .fingerprint s => Short s
  | .number _ | .flag _ => True

/-- What the source's types bound: lengths are 64-bit numbers, and an instant in nanoseconds is a
128-bit one. -/
structure AuditEvent.Representable (e : AuditEvent) : Prop where
  tenant : Short e.tenant
  instant : -2 ^ 127 ≤ e.occurredAt ∧ e.occurredAt < 2 ^ 127
  actor : e.actor.Representable
  actorChain : (∀ a ∈ e.actorChain, a.Representable) ∧ e.actorChain.length < 2 ^ 64
  subject : ∀ s ∈ e.subject, Short s
  client : ∀ s ∈ e.client, Short s
  session : ∀ s ∈ e.session, Short s
  grant : ∀ s ∈ e.grant, Short s
  requestId : ∀ s ∈ e.requestId, Short s
  detail : (∀ entry ∈ e.detail.entries, Short entry.1 ∧ entry.2.Representable) ∧
    e.detail.entries.length < 2 ^ 64

/-! ### The encoding determines the event -/

theorem length_utf8 (s : String) : (utf8 s).length = s.utf8ByteSize := rfl

theorem prefixFree_text : PrefixFree Short fun s => field (utf8 s) :=
  .frame (fun _ _ _ _ h => utf8_injective h) fun s hs => by rwa [length_utf8]

theorem prefixFree_bytes : PrefixFree (fun b : Bytes => b.length < 2 ^ 64) field :=
  .frame (fun _ _ _ _ h => h) fun _ hb => hb

theorem short_kind (a : Actor) : Short a.kind := by
  have hkin : ∀ kind ∈ ["user", "client", "agent", "admin", "system"], Short kind := by decide
  cases a <;> exact hkin _ (by simp [Actor.kind])

theorem Actor.Representable.id {a : Actor} (h : a.Representable) : Short a.id := by
  cases a with
  | user | client | admin => exact h
  | agent => exact h.1
  | system => exact (by decide : Short "")

theorem Actor.Representable.onBehalfOf {a : Actor} (h : a.Representable) : Short a.onBehalfOf := by
  cases a with
  | agent => exact h.2
  | user | client | admin | system => exact (by decide : Short "")

theorem prefixFree_actor : PrefixFree Actor.Representable Actor.bytes := by
  intro a b ha hb _ _ h
  simp only [Actor.bytes, List.append_assoc] at h
  obtain ⟨hkd, hre⟩ := prefixFree_text (short_kind a) (short_kind b) h
  obtain ⟨hid, hbeh, hrs⟩ :=
    prefixFree_text.append prefixFree_text ha.id hb.id ha.onBehalfOf hb.onBehalfOf hre
  refine ⟨Option.some.inj ?_, hrs⟩
  rw [← a.ofParts_kind, ← b.ofParts_kind, hkd, hid, hbeh]

theorem prefixFree_optional : PrefixFree (fun o : Option String => ∀ s ∈ o, Short s) optional := by
  intro o o' ho ho' _ _ h
  have h0 : Short "0" := by decide
  have h1 : Short "1" := by decide
  cases o <;> cases o' <;> simp only [optional] at h
  · exact ⟨rfl, (prefixFree_text h0 h0 h).2⟩
  · exact absurd (prefixFree_text h0 h1 h).1 (by decide)
  · exact absurd (prefixFree_text h1 h0 h).1 (by decide)
  · next value value' =>
    obtain ⟨-, hval, hrs⟩ :=
      prefixFree_text.append prefixFree_text h1 h1 (ho value rfl) (ho' value' rfl) h
    exact ⟨by rw [hval], hrs⟩

/-- A value is its tag and what is written for it. -/
def DetailValue.tag : DetailValue → String
  | .text _ => "t"
  | .number _ => "n"
  | .flag _ => "b"
  | .fingerprint _ => "f"

/-- The bytes behind the tag. -/
def DetailValue.payload : DetailValue → Bytes
  | .text s | .fingerprint s => utf8 s
  | .number n => beInt 8 n.toInt
  | .flag b => [if b then 1 else 0]

theorem DetailValue.bytes_eq (v : DetailValue) :
    v.bytes = field (utf8 v.tag) ++ field v.payload := by
  cases v <;> rfl

theorem DetailValue.Representable.payload {v : DetailValue} (h : v.Representable) :
    v.payload.length < 2 ^ 64 := by
  cases v with
  | text | fingerprint => exact h
  | number =>
    rw [DetailValue.payload, length_beInt]
    decide
  | flag => exact (by decide : 1 < 2 ^ 64)

theorem beInt_toInt_inj {m n : Int64} (h : beInt 8 m.toInt = beInt 8 n.toInt) : m = n := by
  have hm := And.intro m.le_toInt m.toInt_lt
  have hn := And.intro n.le_toInt n.toInt_lt
  exact Int64.toInt_inj.1 (beInt_inj (by omega) (by omega) h)

theorem prefixFree_detailValue : PrefixFree DetailValue.Representable DetailValue.bytes := by
  intro v w hv hw r s h
  have htag : ∀ u : DetailValue, Short u.tag := by
    have hta : ∀ tag ∈ ["t", "n", "b", "f"], Short tag := by decide
    intro u
    cases u <;> exact hta _ (by simp [DetailValue.tag])
  simp only [DetailValue.bytes_eq, List.append_assoc] at h
  obtain ⟨hta, hre⟩ := prefixFree_text (htag v) (htag w) h
  obtain ⟨hpa, hrs⟩ := prefixFree_bytes hv.payload hw.payload hre
  refine ⟨?_, hrs⟩
  cases v <;> cases w <;> simp [DetailValue.tag] at hta
  · exact congrArg _ (utf8_injective hpa)
  · exact congrArg _ (beInt_toInt_inj hpa)
  · next b b' => cases b <;> cases b' <;> simp_all [DetailValue.payload]
  · exact congrArg _ (utf8_injective hpa)

theorem prefixFree_entry : PrefixFree (fun entry : String × DetailValue =>
    Short entry.1 ∧ entry.2.Representable) entryBytes := by
  intro _ _ hx hy _ _ h
  simp only [entryBytes, List.append_assoc] at h
  obtain ⟨hkey, hval, hrs⟩ :=
    prefixFree_text.append prefixFree_detailValue hx.1 hy.1 hx.2 hy.2 h
  exact ⟨Prod.ext hkey hval, hrs⟩

theorem prefixFree_counted {α : Type*} {P : α → Prop} {f : α → Bytes} (hf : PrefixFree P f) :
    PrefixFree (fun l : List α => (∀ a ∈ l, P a) ∧ l.length < 2 ^ 64) (counted f) :=
  hf.counted (w := 8) (v := 8) (by decide)

theorem short_eventType (t : EventType) : Short t.name := by
  have hall : ∀ name ∈ eventTypes, name.utf8ByteSize < 2 ^ 64 := by decide +kernel
  exact hall t.name t.declared

theorem short_outcome (o : Outcome) : Short o.asStr := by
  cases o <;> decide

/-- **The encoding is injective.** -/
theorem canonicalBytes_inj {e e' : AuditEvent} (he : e.Representable) (he' : e'.Representable)
    (h : canonicalBytes e = canonicalBytes e') : e = e' := by
  have hin : (beInt 16 e.occurredAt).length < 2 ^ 64 := by rw [length_beInt]; decide
  have hin' : (beInt 16 e'.occurredAt).length < 2 ^ 64 := by rw [length_beInt]; decide
  obtain ⟨hten, h⟩ := prefixFree_text he.tenant he'.tenant h
  obtain ⟨hocc, h⟩ := prefixFree_bytes hin hin' h
  obtain ⟨hty, h⟩ := prefixFree_text (short_eventType _) (short_eventType _) h
  obtain ⟨hou, h⟩ := prefixFree_text (short_outcome _) (short_outcome _) h
  obtain ⟨hact, h⟩ := prefixFree_actor he.actor he'.actor h
  obtain ⟨hchn, h⟩ := prefixFree_counted prefixFree_actor he.actorChain he'.actorChain h
  obtain ⟨hsj, h⟩ := prefixFree_optional he.subject he'.subject h
  obtain ⟨hcli, h⟩ := prefixFree_optional he.client he'.client h
  obtain ⟨hse, h⟩ := prefixFree_optional he.session he'.session h
  obtain ⟨hgr, h⟩ := prefixFree_optional he.grant he'.grant h
  obtain ⟨hreq, h⟩ := prefixFree_optional he.requestId he'.requestId h
  have hdet := (prefixFree_counted prefixFree_entry).inj he.detail he'.detail h
  have hat : e.occurredAt = e'.occurredAt := by
    have hbo := he.instant
    have hbo' := he'.instant
    exact beInt_inj (by omega) (by omega) hocc
  have hsm : e.outcome = e'.outcome := by
    revert hou
    cases e.outcome <;> cases e'.outcome <;> simp [Outcome.asStr]
  obtain ⟨_, _, ⟨_, _⟩, _, _, _, _, _, _, _, _, ⟨_, _⟩⟩ := e
  simp_all

end AsteriusIdp.Audit
