import AsteriusIdp.Lib.Transition

/-!
# Switching an account off

SCIM clients replace, patch and delete an account, and the console disables it.  The lock of an
administrator is one value of the status that they all write.

* `lifecycle_safe` : a locked account stays locked, and relying parties are sent an invalidation
  only when the account becomes disabled, in every run in which a locked account is not disabled.
-/

namespace AsteriusIdp.Users

open Transition

/-- Where an account stands. -/
inductive UserStatus where
  | active
  | disabled
  | locked
  deriving DecidableEq

/-- What a client may edit. -/
structure PatchedUser where
  username : String
  email : Option String
  externalId : Option String
  status : UserStatus

/-- The account as it was read for a SCIM client. -/
structure ScimUserState extends PatchedUser where
  revision : ℤ

/-- An attribute of a patch whose path and value were accepted; without a value it is removed. -/
inductive Attribute where
  | userName (value : String)
  | active (value : Bool)
  | externalId (value : Option String)
  | email (value : Option String)

/-- The status of a flag. -/
def UserStatus.ofActive (active : Bool) : UserStatus := if active then .active else .disabled

/-- Set an attribute. -/
def PatchedUser.applyAttribute (result : PatchedUser) : Attribute → PatchedUser
  | .userName value => { result with username := value }
  | .active value => { result with status := .ofActive value }
  | .externalId value => { result with externalId := value }
  | .email value => { result with email := value }

/-- What is to be stored. -/
structure ScimProfileReplacement where
  client : String
  expectedRevision : ℤ
  user : PatchedUser
  delete : Bool

/-- A request of a SCIM client that was read and accepted. -/
inductive Request where
  | replace (username : String) (email externalId : Option String) (active : Option Bool)
  | patch (attributes : List Attribute)
  | delete

/-- What the handlers write for a request, unless they refuse to unlock the account.  The revision
in the header is the one that was read. -/
def Request.replacement (client : String) (held : ScimUserState) :
    Request → Option ScimProfileReplacement
  | .replace username email externalId active =>
    if active = some true ∧ held.status = .locked then none
    else some ⟨client, held.revision,
      ⟨username, email, externalId, active.elim held.status .ofActive⟩, false⟩
  | .patch attributes =>
    let requested := attributes.foldl PatchedUser.applyAttribute held.toPatchedUser
    if held.status = .locked ∧ requested.status = .active then none
    else some ⟨client, held.revision, requested, false⟩
  | .delete => some ⟨client, held.revision, { held.toPatchedUser with status := .disabled }, true⟩

/-- What a provider is told. -/
inductive Command where
  | invalidate
  | delete
  deriving DecidableEq

/-- A command that is queued. -/
structure ProviderCommand where
  client : String
  subject : String
  command : Command

/-- The row of a SCIM client; a tombstone when it is deleted. -/
structure ScimExternalId where
  externalId : Option String
  deleted : Bool
  deriving DecidableEq

/-- The row of the account, those of its SCIM clients, and the commands in the outbox. -/
structure Account where
  username : String
  email : Option String
  emailVerified : Bool
  status : UserStatus
  revision : ℤ
  externalIds : String → Option ScimExternalId
  commands : List ProviderCommand

variable (reserved : String → Bool)

namespace Account

/-- The account may sign in. -/
def canAuthenticate (a : Account) : Bool := a.status = .active

/-- The recipients are the active clients with a command endpoint that know the user. -/
def queueProviderCommands (a : Account) (recipients : List (String × String)) (command : Command) :
    Account :=
  { a with commands := a.commands ++ recipients.map fun r => ⟨r.1, r.2, command⟩ }

/-- An update of the row adds one to its revision. -/
def scimWriteIdentity (a : Account) (r : ScimProfileReplacement) : Option Account :=
  let row := a.externalIds r.client
  let status := if r.delete then .disabled else r.user.status
  let eraseEmail :=
    r.delete && r.user.externalId.any fun id => row = some ⟨some id, false⟩ && reserved id
  if row.any (·.deleted) then none
  else if a.revision = r.expectedRevision ∧ (a.status ≠ .locked ∨ status ≠ .active) then
    some { a with
      username := r.user.username
      email := if eraseEmail then none else r.user.email
      emailVerified := if eraseEmail || a.email ≠ r.user.email then false else a.emailVerified
      status := if a.status = .locked then .locked else status
      revision := a.revision + 1
      externalIds := Function.update a.externalIds r.client (some ⟨r.user.externalId, r.delete⟩) }
  else none

/-- Store the profile. -/
def scimReplaceProfile (a : Account) (r : ScimProfileReplacement)
    (recipients : List (String × String)) : Option Account :=
  if r.expectedRevision < 1 then none
  else
    (a.scimWriteIdentity reserved r).map fun written =>
      if r.delete ∨ r.user.status = .disabled ∧ a.status ≠ .disabled then
        written.queueProviderCommands recipients (if r.delete then .delete else .invalidate)
      else written

/-- Disable and tell the providers. -/
def disableWithProviderCommands (a : Account) (recipients : List (String × String)) : Account :=
  if a.status = .disabled then a
  else
    { a with status := .disabled, revision := a.revision + 1 }.queueProviderCommands recipients
      .invalidate

end Account

/-- The writers of the status, with what they read before they write. -/
inductive Event where
  | scim (client : String) (held : ScimUserState) (request : Request)
      (recipients : List (String × String))
  | consoleDisable (recipients : List (String × String))

/-- A write that fails is rolled back and is no step. -/
def write (a : Account) : Event → Option Account
  | .scim client held request recipients => do
    let replacement ← request.replacement client held
    a.scimReplaceProfile reserved replacement recipients
  | .consoleDisable recipients => some (a.disableWithProviderCommands recipients)

/-- The runs of an account. -/
def writes : System Account Event := .ofPartial (write reserved)

/-- The event does not disable a locked account. -/
def Event.SparesLock (a : Account) : Event → Prop
  | .scim client held request _ => a.status = .locked →
      ∀ r ∈ request.replacement client held, r.user.status = .disabled → r.delete = true
  | .consoleDisable _ => a.status ≠ .locked

variable {reserved} {a b : Account} {r : ScimProfileReplacement} {event : Event}

theorem scimWriteIdentity_spec (h : a.scimWriteIdentity reserved r = some b) :
    b.commands = a.commands ∧ b.status = if a.status = .locked then .locked else
      if r.delete then .disabled else r.user.status := by
  simp only [Account.scimWriteIdentity] at h
  split_ifs at h <;> cases h <;> simp_all

/-- An invalidation is queued only when the account becomes disabled. -/
def Announces (a b : Account) : Prop :=
  ∃ queued, b.commands = a.commands ++ queued ∧
    ∀ c ∈ queued, c.command = .invalidate → a.status ≠ .disabled ∧ b.status = .disabled

theorem announces_queue {recipients : List (String × String)} {command : Command}
    (hcm : b.commands = a.commands)
    (h : command = .invalidate → a.status ≠ .disabled ∧ b.status = .disabled) :
    Announces a (b.queueProviderCommands recipients command) := by
  refine ⟨_, congrArg (· ++ _) hcm, fun c hc => ?_⟩
  obtain ⟨_, -, rfl⟩ := List.mem_map.1 hc
  exact h

theorem write_spec (h : write reserved a event = some b) (hsp : event.SparesLock a) :
    (a.status = .locked → b.status = .locked) ∧ Announces a b := by
  cases event with
  | scim =>
    obtain ⟨r, hr, hwri⟩ := Option.bind_eq_some_iff.1 h
    unfold Account.scimReplaceProfile at hwri
    rw [Option.ite_none_left_eq_some, Option.map_eq_some_iff] at hwri
    obtain ⟨-, written, hwr, rfl⟩ := hwri
    obtain ⟨hcm, hst⟩ := scimWriteIdentity_spec hwr
    have hspa := fun hlk => hsp hlk r hr
    have hlk : a.status = .locked → written.status = .locked := fun h => by rw [hst, if_pos h]
    split
    · refine ⟨hlk, announces_queue hcm fun hco => ?_⟩
      -- a locked account is spared, so that the row has the status that was asked for
      grind
    · exact ⟨hlk, [], by simp [hcm], nofun⟩
  | consoleDisable =>
    obtain rfl := Option.some.inj h
    unfold Account.disableWithProviderCommands
    split_ifs with hdis
    · exact ⟨id, [], by simp, nofun⟩
    · exact ⟨fun h => absurd h hsp, announces_queue rfl fun _ => ⟨hdis, rfl⟩⟩

/-- **Locks hold.**  In every run in which no locked account is disabled, whatever the order of
the writers, a locked account can not authenticate again, and an invalidation is queued only by a
write that takes the account from not disabled to disabled. -/
theorem lifecycle_safe {s : Account} {events : List Event}
    (h : ((writes reserved).restrict fun a event => event.SparesLock a).Path s events a)
    (hstep : write reserved a event = some b) (hspares : event.SparesLock a) :
    (s.status = .locked → b.canAuthenticate = false) ∧ Announces a b := by
  obtain ⟨hlk, hann⟩ := write_spec hstep hspares
  refine ⟨fun hs => ?_, hann⟩
  have ha : a.status = .locked := by
    refine h.invariant (I := fun a => a.status = .locked) (fun _ _ _ hstep => ?_) hs
    exact (write_spec hstep.1 hstep.2).1
  simp [Account.canAuthenticate, hlk ha]

/-- The account of Ada. -/
def ada (status : UserStatus) : Account :=
  { username := "ada", email := none, emailVerified := false, status, revision := 1,
    externalIds := fun _ => none, commands := [] }

/-- What the client holds of it. -/
def heldAda (status : UserStatus) (revision : ℤ) : ScimUserState :=
  { username := "ada", email := none, externalId := none, status, revision }

/-- The directory changes the account twice. -/
def edits (status : UserStatus) : List Event :=
  [.scim "hr" (heldAda status 1) (.patch [.email (some "ada@x.example")]) [],
    .scim "hr" (heldAda status 2) (.replace "ada.l" none none none) []]

/-- Where that leads. -/
def edited (status : UserStatus) : Account :=
  ((edits status).foldlM (write fun _ => false) (ada status)).getD (ada status)

theorem edits_path (status : UserStatus) (hst : status ≠ .disabled) :
    ((writes fun _ => false).restrict fun a event => event.SparesLock a).Path (ada status)
      (edits status) (edited status) := by
  cases status with
  | disabled => exact absurd rfl hst
  | active => exact .cons ⟨rfl, nofun⟩ (.cons ⟨rfl, nofun⟩ (.nil _))
  | locked =>
    refine .cons ⟨rfl, ?_⟩ (.cons ⟨rfl, ?_⟩ (.nil _))
    · rintro - _ ⟨⟩ ⟨⟩
    · rintro - _ ⟨⟩ ⟨⟩

/-- A locked account is changed twice and deleted, an active one changed twice and disabled. -/
theorem lifecycle_safe_edited :
    (∃ b, write (fun _ => false) (edited .locked)
        (.scim "hr" (heldAda .locked 3) .delete [("app", "sub")]) = some b ∧
      b.commands.map ProviderCommand.command = [.delete] ∧ b.canAuthenticate = false ∧
      Announces (edited .locked) b) ∧
    ∃ b, write (fun _ => false) (edited .active)
        (.scim "hr" (heldAda .active 3) (.patch [.active false]) [("app", "sub")]) = some b ∧
      b.commands.map ProviderCommand.command = [.invalidate] ∧ Announces (edited .active) b := by
  have hdel : write (fun _ => false) (edited .locked)
    (.scim "hr" (heldAda .locked 3) .delete [("app", "sub")]) = some _ := rfl
  have hdis : write (fun _ => false) (edited .active)
    (.scim "hr" (heldAda .active 3) (.patch [.active false]) [("app", "sub")]) = some _ := rfl
  obtain ⟨hlk, hann⟩ := lifecycle_safe (edits_path .locked (by decide)) hdel
    (by rintro - _ ⟨⟩ -; rfl)
  obtain ⟨-, hann'⟩ := lifecycle_safe (edits_path .active (by decide)) hdis (by nofun)
  exact ⟨⟨_, hdel, rfl, hlk rfl, hann⟩, _, hdis, rfl, hann'⟩

/-- A disabled account has lost its lock, and a locked account is invalidated again and again. -/
theorem lock_overwritten :
    (∃ events b, (writes fun _ => false).Path (ada .locked) events b ∧ b.canAuthenticate = true) ∧
    ∃ events b, (writes fun _ => false).Path (ada .locked) events b ∧ b.status = .locked ∧
    b.commands.map ProviderCommand.command = [.invalidate, .invalidate] :=
  ⟨⟨[.consoleDisable [], .scim "hr" (heldAda .disabled 2) (.patch [.active true]) []], _,
      .of_foldlM rfl, rfl⟩,
    [.scim "hr" (heldAda .locked 1) (.patch [.active false]) [("app", "sub")],
      .scim "hr" (heldAda .locked 2) (.patch [.active false]) [("app", "sub")]], _,
    .of_foldlM rfl, rfl, rfl⟩

end AsteriusIdp.Users
