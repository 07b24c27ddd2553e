import AsteriusIdp.Claims.Name
import AsteriusIdp.Lib.Uuid

/-!
# Patching a SCIM group

The operations of a patch change a group in memory; the result is checked and written as a whole.

* `Edit.Means` : the supported paths, and what an attribute asks for.
* `patch_spec` : a patch is applied with set semantics, unless it removes `members[value eq "]`,
  where the two quotes are one and the slice between them panics.
-/

namespace AsteriusIdp.Scim

open Fallible

/-- How a patch can fail. -/
inductive Failure where
  | panic
  | invalid (message : String)

/-- A failure with a message. -/
def invalid {α : Type} (x : Except String α) : Except Failure α := x.mapError .invalid

/-- A group with its members: a list in memory, a set in the store. -/
structure Group (M : Type) where
  displayName : String
  externalId : Option String
  members : M

/-- A group with its members in order. -/
abbrev PatchedGroup := Group (List Uuid)

/-- A member as the client writes it. -/
structure Member where
  value : String
  reference : Option String
  kind : Option String

/-- One operation of a request. -/
structure PatchOperation where
  op : String
  path : Option String
  value : Option Json

/-- The body of a PATCH request. -/
structure PatchRequest where
  schemas : List String
  operations : List PatchOperation

/-- An attribute of an operation. -/
structure Edit where
  path : String
  value : Option Json
  remove : Bool
  add : Bool

/-- What an attribute asks for. -/
inductive Change where
  | displayName (name : String)
  | externalId (id : Option String)
  | addMembers (ids : List Uuid)
  | setMembers (ids : List Uuid)
  | removeMember (id : Uuid)

/-- The group after a change. -/
def Change.apply (group : PatchedGroup) : Change → PatchedGroup
  | .displayName name => { group with displayName := name }
  | .externalId id => { group with externalId := id }
  | .addMembers ids => { group with members := group.members ++ ids }
  | .setMembers ids => { group with members := ids }
  | .removeMember id => { group with members := group.members.filter (· ≠ id) }

/-- How a member filter starts. -/
def filterStart : List Char := "members[value eq \"".toList

/-- How it ends. -/
def filterEnd : List Char := ['"', ']']

/-- The slice between the quotes of a filter, or a panic: the quotes are ASCII, so that positions
in characters are positions in bytes. -/
def literal (path : List Char) : Except Failure String :=
  if 18 ≤ path.length - 2 then .ok (.ofList ((path.drop 18).take (path.length - 20)))
  else .error .panic

section

-- how a member is decoded, the tenant's URL, whom the client sees
variable (decode : Json → Option Member) (base : String) (visible : Uuid → Bool)

/-- The user a member names, in this tenant. -/
def readMember (member : Member) : Except String Uuid := do
  let id ← okOr (Uuid.parse member.value) "invalid SCIM member value"
  refuseIf (member.kind.any (· != "User") ∨
    member.reference.any (· != base ++ "/Users/" ++ id.text))
    "SCIM member reference is outside this tenant"
  pure id

/-- The users of a value. -/
def parseMemberValue (value : Json) : Except String (List Uuid) := do
  let requested ← okOr ((value.asArray.getD [value]).mapM decode) "invalid SCIM members value"
  refuseIf (1000 < requested.length) "too many SCIM group members"
  requested.mapM (readMember base)

/-- The members that an attribute gives. -/
def Edit.members (edit : Edit) : Except String (List Uuid) :=
  if edit.remove then pure []
  else do parseMemberValue decode base (← okOr edit.value "members value is required")

/-- The change of one attribute. -/
def applyAttribute (edit : Edit) : Except Failure Change :=
  if Text.eqIgnoreCase edit.path "displayName" then invalid do
    refuseIf edit.remove "displayName cannot be removed"
    let value ← okOr edit.value "displayName value is required"
    .displayName <$> okOr value.asStr "displayName must be a string"
  else if Text.eqIgnoreCase edit.path "externalId" then
    if edit.remove then pure (.externalId none)
    else invalid do
      let value ← okOr edit.value "externalId value is required"
      (.externalId <| some ·) <$> okOr value.asStr "externalId must be a string"
  else if Text.eqIgnoreCase edit.path "members" then
    invalid ((if edit.add then .addMembers else .setMembers) <$> edit.members decode base)
  else if edit.remove ∧ filterStart <+: edit.path.toList ∧ filterEnd <:+ edit.path.toList then do
    let id ← literal edit.path.toList
    invalid (.removeMember <$> okOr (Uuid.parse id) "invalid SCIM member filter")
  else .error (.invalid "unsupported SCIM patch path")

/-- The operation is a removal. -/
def PatchOperation.removes (operation : PatchOperation) : Bool :=
  Text.eqIgnoreCase operation.op "remove"

/-- The attributes an operation names: its path, or the members of its value. -/
def PatchOperation.edits (operation : PatchOperation) : Except String (List Edit) := do
  let add := Text.eqIgnoreCase operation.op "add"
  refuseIf (!operation.removes && !add && !Text.eqIgnoreCase operation.op "replace")
    "unsupported SCIM patch operation"
  match operation.path with
  | some path => pure [⟨path, operation.value, operation.removes, add⟩]
  | none =>
    refuseIf operation.removes "unsupported SCIM patch path"
    let value ← okOr operation.value "SCIM patch value is required"
    let attributes ← okOr value.asObject "SCIM patch value must be an object"
    pure (attributes.map fun entry => ⟨entry.1, some entry.2, false, add⟩)

/-- What an operation asks for: the group has no part in reading it. -/
def PatchOperation.changes (operation : PatchOperation) : Except Failure (List Change) := do
  (← invalid operation.edits).mapM (applyAttribute decode base)

/-- The envelope of a patch is right. -/
def PatchRequest.accepted (request : PatchRequest) : Bool :=
  request.schemas = ["urn:ietf:params:scim:api:messages:2.0:PatchOp"] ∧ request.operations ≠ [] ∧
    request.operations.length ≤ 20

/-- The group that a patch makes. -/
def applyPatch (request : PatchRequest) (held : PatchedGroup) : Except Failure PatchedGroup := do
  refuseIf (!request.accepted) (.invalid "invalid SCIM PatchOp envelope")
  let changes ← request.operations.mapM (PatchOperation.changes decode base)
  let result := changes.flatten.foldl Change.apply held
  refuseIf (result.externalId.any fun id =>
    id = "" ∨ 256 < id.utf8ByteSize ∨ id.toList.any isControl) (.invalid "invalid SCIM externalId")
  pure result

/-- A display name that may be stored. -/
def displayAllowed (name : String) : Bool :=
  name ≠ "" ∧ name.utf8ByteSize ≤ 200 ∧ ¬name.toList.head?.any Text.isWhitespace ∧
    ¬name.toList.getLast?.any Text.isWhitespace ∧ ¬name.toList.any fun c => isControl c ∨
    c.toNat ∈ [0x61c, 0x200e, 0x200f] ∨ 0x202a ≤ c.toNat ∧ c.toNat ≤ 0x202e ∨
    0x2066 ≤ c.toNat ∧ c.toNat ≤ 0x2069

/-- The members as a set. -/
def Group.stored (group : PatchedGroup) : Group (Finset Uuid) :=
  { group with members := group.members.toFinset }

/-- The group that is stored, if it is allowed. -/
def scimReplace (result : PatchedGroup) : Except String (Group (Finset Uuid)) := do
  refuseIf (!displayAllowed result.displayName)
    ("display name must contain 1–200 UTF-8 bytes without control or bidi formatting characters "
      ++ "or surrounding whitespace")
  refuseIf (1000 < result.members.length) "too many SCIM group members"
  refuseIf (¬result.members.Nodup) "duplicate SCIM group member"
  refuseIf (!result.members.all visible) "member is outside this client's tenant view"
  pure result.stored

/-- The answer to a PATCH request. -/
def patch (request : PatchRequest) (held : PatchedGroup) : Except Failure (Group (Finset Uuid)) :=
  do invalid (scimReplace visible (← applyPatch decode base request held))

end

/-! ### Set semantics -/

/-- The change of a stored group. -/
def Change.onSets (group : Group (Finset Uuid)) : Change → Group (Finset Uuid)
  | .displayName name => { group with displayName := name }
  | .externalId id => { group with externalId := id }
  | .addMembers ids => { group with members := group.members ∪ ids.toFinset }
  | .setMembers ids => { group with members := ids.toFinset }
  | .removeMember id => { group with members := group.members.erase id }

section

variable (decode : Json → Option Member) (base : String)

/-- The supported paths. -/
def Edit.Means (edit : Edit) : Change → Prop
  | .displayName name => Text.eqIgnoreCase edit.path "displayName" ∧ edit.remove = false ∧
    edit.value = some (.str name)
  | .externalId id => Text.eqIgnoreCase edit.path "externalId" ∧
    if edit.remove then id = none else ∃ text, id = some text ∧ edit.value = some (.str text)
  | .addMembers ids => Text.eqIgnoreCase edit.path "members" ∧ edit.add = true ∧
    edit.members decode base = .ok ids
  | .setMembers ids => Text.eqIgnoreCase edit.path "members" ∧ edit.add = false ∧
    edit.members decode base = .ok ids
  | .removeMember id => edit.remove = true ∧ ∃ text,
    edit.path.toList = filterStart ++ text ++ filterEnd ∧ Uuid.parse (.ofList text) = some id

/-- An operation asks for these changes, in order. -/
def PatchOperation.Means (operation : PatchOperation) (changes : List Change) : Prop :=
  ∃ edits, operation.edits = .ok edits ∧ List.Forall₂ (Edit.Means decode base) edits changes

end

variable {decode : Json → Option Member} {base : String} {visible : Uuid → Bool} {edit : Edit}
  {operation : PatchOperation} {path : List Char}

theorem Change.stored_apply (group : PatchedGroup) (change : Change) :
    (change.apply group).stored = change.onSets group.stored := by
  cases change with
  | removeMember =>
    simp only [Change.apply, Group.stored, Change.onSets, Group.mk.injEq, true_and]
    ext other
    simp [and_comm]
  | _ => simp [Change.apply, Group.stored, Change.onSets]

@[simp] theorem invalid_ok {α : Type} {x : Except String α} {a : α} :
    invalid x = .ok a ↔ x = .ok a := mapError_ok

@[simp] theorem invalid_ne_panic {α : Type} (x : Except String α) : invalid x ≠ .error .panic := by
  cases x <;> simp [invalid, Except.mapError]

theorem invalid_spec {α : Type} {x : Except String α} {P : α → Prop} {q : Prop}
    (h : ∀ a, x = .ok a → P a) : (∀ a, invalid x = .ok a → P a) ∧ (invalid x = .error .panic → q) :=
  ⟨fun a ha => h a (invalid_ok.1 ha), fun hpan => absurd hpan (invalid_ne_panic x)⟩

/-- The path in which the two quotes are one. -/
def overlap : String := "members[value eq \"]"

theorem length_filterStart : filterStart.length = 18 := by decide +kernel

/-- The slice ends before it begins in one path only. -/
theorem literal_cases (hsta : filterStart <+: path) (hend : filterEnd <:+ path) :
    (path = filterStart ++ [']'] ∧ literal path = .error .panic) ∨
      ∃ text, path = filterStart ++ text ++ filterEnd ∧ literal path = .ok (.ofList text) := by
  obtain ⟨rest, rfl⟩ := hsta
  unfold literal
  rw [← length_filterStart, List.length_append, List.drop_left]
  rcases rest with _ | ⟨c, _ | ⟨d, rest⟩⟩
  · exact absurd hend (by decide +kernel)
  · obtain ⟨text, htx⟩ := hend
    obtain rfl : ']' = c := by simpa [filterEnd] using congrArg List.getLast? htx
    exact .inl ⟨rfl, rfl⟩
  · obtain ⟨text, htx⟩ : filterEnd <:+ c :: d :: rest :=
      List.suffix_of_suffix_length_le hend (List.suffix_append _ _) (by simp [filterEnd])
    have hta : filterStart.length + (text ++ filterEnd).length - 20 = text.length := by
      simp [filterEnd, length_filterStart]; omega
    rw [← htx, hta, if_pos (by simp [filterEnd]; omega), List.take_left]
    exact .inr ⟨text, (List.append_assoc _ _ _).symm, rfl⟩

theorem applyAttribute_spec (edit : Edit) :
    (∀ change, applyAttribute decode base edit = .ok change → edit.Means decode base change) ∧
      (applyAttribute decode base edit = .error .panic →
        edit.remove = true ∧ edit.path = overlap) := by
  unfold applyAttribute
  split_ifs with hnm hid hrem hms hadd hfl
  · refine invalid_spec fun change h => ?_
    simp only [bind_ok, map_ok, okOr_ok, refuseIf_ok, Json.asStr_eq_some] at h
    obtain ⟨-, hrem, _, hval, name, rfl, rfl⟩ := h
    exact ⟨hnm, by simpa using hrem, hval⟩
  · refine ⟨fun change h => ?_, by simp [pure, Except.pure]⟩
    obtain rfl := pure_ok.1 h
    exact ⟨hid, by rw [if_pos hrem]⟩
  · refine invalid_spec fun change h => ?_
    simp only [bind_ok, map_ok, okOr_ok, Json.asStr_eq_some] at h
    obtain ⟨_, hval, id, rfl, rfl⟩ := h
    exact ⟨hid, by rw [if_neg hrem]; exact ⟨id, rfl, hval⟩⟩
  · refine invalid_spec fun change h => ?_
    obtain ⟨ids, hids, rfl⟩ := map_ok.1 h
    exact ⟨hms, hadd, hids⟩
  · refine invalid_spec fun change h => ?_
    obtain ⟨ids, hids, rfl⟩ := map_ok.1 h
    exact ⟨hms, by simpa using hadd, hids⟩
  · rcases literal_cases hfl.2.1 hfl.2.2 with ⟨hp, hsli⟩ | ⟨text, hp, hsli⟩
    · refine ⟨by simp [hsli], fun _ => ⟨hfl.1, String.toList_injective ?_⟩⟩
      rw [hp]
      decide +kernel
    · rw [hsli]
      refine invalid_spec fun change h => ?_
      obtain ⟨_, hpar, rfl⟩ := map_ok.1 h
      exact ⟨hfl.1, text, hp, okOr_ok.1 hpar⟩
  · constructor <;> simp

theorem applyAttribute_overlap (hrem : edit.remove = true) (hp : edit.path = overlap) :
    applyAttribute decode base edit = .error .panic := by
  unfold applyAttribute
  rw [hp, if_neg (by decide +kernel), if_neg (by decide +kernel), if_neg (by decide +kernel),
    if_pos ⟨hrem, by decide +kernel, by decide +kernel⟩]
  rfl

theorem changes_eq_panic : operation.changes decode base = .error .panic ↔
    operation.removes = true ∧ operation.path = some overlap := by
  unfold PatchOperation.changes
  constructor
  · intro h
    cases hed : operation.edits with
    | error => rw [hed] at h; cases h
    | ok =>
      rw [hed] at h
      obtain ⟨edit, hfd, hpan⟩ := mapM_eq_error.1 h
      obtain ⟨hrem, hp⟩ := (applyAttribute_spec edit).2 hpan
      have hmem := List.mem_of_find?_eq_some hfd
      unfold PatchOperation.edits at hed
      cases hop : operation.path with
      | some =>
        simp only [hop, bind_ok, pure_ok] at hed
        obtain ⟨-, -, rfl⟩ := hed
        obtain rfl := List.mem_singleton.1 hmem
        exact ⟨hrem, congrArg some hp⟩
      | none =>
        simp only [hop, bind_ok, pure_ok] at hed
        obtain ⟨-, -, -, -, _, -, _, -, rfl⟩ := hed
        obtain ⟨_, -, rfl⟩ := List.mem_map.1 hmem
        cases hrem
  · rintro ⟨hre, hp⟩
    have hed : operation.edits = .ok [⟨overlap, operation.value, true,
        Text.eqIgnoreCase operation.op "add"⟩] := by
      simp [PatchOperation.edits, hre, hp, refuseIf, pure, Except.pure, bind, Except.bind]
    rw [hed]
    show [_].mapM (applyAttribute decode base) = _
    rw [List.mapM_cons, applyAttribute_overlap rfl rfl]
    rfl

variable {req : PatchRequest} {held : PatchedGroup} {group : Group (Finset Uuid)}

theorem patch_eq_panic : patch decode base visible req held = .error .panic ↔ req.accepted = true ∧
    req.operations.mapM (PatchOperation.changes decode base) = .error .panic := by
  unfold patch applyPatch
  cases req.accepted with
  | false => simp [refuseIf, bind, Except.bind]
  | true =>
    cases req.operations.mapM (PatchOperation.changes decode base) with
    | error => simp [refuseIf, bind, Except.bind]
    | ok =>
      simp only [refuseIf, bind, Except.bind]
      split_ifs <;> simp [pure, Except.pure]

/-- The group that is written is bounded, and the old one with the changes, as a set. -/
def PatchRequest.Yields (decode : Json → Option Member) (base : String) (request : PatchRequest)
    (held : PatchedGroup) (group : Group (Finset Uuid)) : Prop :=
  group.members.card ≤ 1000 ∧ ∃ changes,
    List.Forall₂ (PatchOperation.Means decode base) request.operations changes ∧
    group = changes.flatten.foldl Change.onSets held.stored

theorem yields_of_patch (h : patch decode base visible req held = .ok group) :
    req.Yields decode base held group := by
  simp only [patch, applyPatch, scimReplace, invalid_ok, bind_ok, pure_ok, refuseIf_ok] at h
  obtain ⟨_, ⟨-, -, changes, hcg, -, -, rfl⟩, -, -, -, hlen, -, -, -, -, rfl⟩ := h
  refine ⟨(List.toFinset_card_le _).trans (not_lt.1 hlen), changes, ?_, ?_⟩
  · refine (mapM_ok.1 hcg).imp fun operation changes h => ?_
    obtain ⟨edits, hed, hmap⟩ := bind_ok.1 h
    exact ⟨edits, invalid_ok.1 hed,
      (mapM_ok.1 hmap).imp fun edit change => (applyAttribute_spec edit).1 change⟩
  · exact (List.foldl_hom Group.stored fun _ _ => (Change.stored_apply _ _).symm).symm

/-- A patch does not panic, and yields the operations in order with set semantics or fails, exactly
when the first operation that cannot be applied does not remove `members[value eq "]`. -/
theorem patch_spec (request : PatchRequest) (held : PatchedGroup) :
    (patch decode base visible request held ≠ .error .panic ∧
      ∀ group, patch decode base visible request held = .ok group →
        request.Yields decode base held group) ↔ (request.accepted = true → ∀ operation ∈
      request.operations.find? (fun operation => !(operation.changes decode base).isOk),
        ¬(operation.removes = true ∧ operation.path = some overlap)) := by
  rw [and_iff_left fun _ => yields_of_patch, ne_eq, patch_eq_panic, mapM_eq_error]
  simp [changes_eq_panic]

theorem overlap_panics : patch (fun _ => none) "" (fun _ => true)
    ⟨["urn:ietf:params:scim:api:messages:2.0:PatchOp"], [⟨"remove", some overlap, none⟩]⟩
    ⟨"g", none, []⟩ = .error .panic := by
  refine patch_eq_panic.2 ⟨by decide +kernel, ?_⟩
  rfl

end AsteriusIdp.Scim
