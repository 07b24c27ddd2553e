import AsteriusIdp.Issuer
import AsteriusIdp.Json.Record
import AsteriusIdp.Json.Text

/-!
# Subject identifiers

A subject identifier is one simple identifier, or an object of up to seven of them.  It is stored
under its text, which is written from what was read.

* `SimpleSubject.fromJson_toJson`, `Subject.fromJson_toJson` : what is written for an accepted
  identifier is read back.
* `subjects_round_trip` : so accepted identifiers are equal when their keys are; and matching is
  reflexive and symmetric, for two complex identifiers agreement on the members they share.
-/

namespace AsteriusIdp.Ssf

open Fallible Entries Json

/-- Why an identifier is refused. -/
inductive SubjectError
  | empty (member : String)
  | tooLong (member : String) (found max : ℕ)
  | notAUri (member : String)
  | notAnObject
  | missing (member : String)
  | wrongType (member : String)
  | unknownFormat
  | unknownMember
  | noMembers
  deriving DecidableEq

/-- The longest member, in characters. -/
def maxMemberLen : ℕ := 255

/-- The longest identifier on the wire, in bytes. -/
def maxSubjectBytes : ℕ := 4 * 1024

/-- The formats of RFC 9493, with their members. -/
inductive SimpleSubject
  | account (uri : String)
  | email (email : String)
  | issuerSubject (iss sub : String)
  | opaqueId (id : String)
  | phoneNumber (phoneNumber : String)
  | uri (uri : String)
  | jwtId (iss jti : String)
  | samlAssertionId (issuer assertionId : String)
  deriving DecidableEq

/-- A member that has to be there, as text. -/
def wireMember (object : Object) (name : String) : Except SubjectError String := do
  let value ← okOr (object.lookup name) (.missing name)
  okOr value.asStr (.wrongType name)

/-- A text that is not empty and not too long. -/
def member (name value : String) : Except SubjectError String := do
  refuseIf (value = "") (.empty name)
  refuseIf (maxMemberLen < value.length) (.tooLong name value.length maxMemberLen)
  pure value

variable (parseUrl : UrlParser)

/-- Such a text that is a URL. -/
def uriMember (name value : String) : Except SubjectError String := do
  let value ← member name value
  let _ ← okOr (parseUrl value) (.notAUri name)
  pure value

namespace SimpleSubject

/-- The constructor of each format: its checks on the members. -/
def new : SimpleSubject → Except SubjectError SimpleSubject
  | account raw => .account <$> uriMember parseUrl "uri" raw
  | email address => .email <$> member "email" address
  | issuerSubject iss sub => .issuerSubject iss <$> member "sub" sub
  | opaqueId id => .opaqueId <$> member "id" id
  | phoneNumber number => .phoneNumber <$> member "phone_number" number
  | uri raw => .uri <$> uriMember parseUrl "uri" raw
  | jwtId iss jti => .jwtId iss <$> member "jti" jti
  | samlAssertionId issuer id => do
    let issuer ← member "issuer" issuer
    .samlAssertionId issuer <$> member "assertion_id" id

/-- The members of the object on the wire. -/
def members : SimpleSubject → List (String × String)
  | account raw => [("format", "account"), ("uri", raw)]
  | email address => [("format", "email"), ("email", address)]
  | issuerSubject iss sub => [("format", "iss_sub"), ("iss", iss), ("sub", sub)]
  | opaqueId id => [("format", "opaque"), ("id", id)]
  | phoneNumber number => [("format", "phone_number"), ("phone_number", number)]
  | uri raw => [("format", "uri"), ("uri", raw)]
  | jwtId iss jti => [("format", "jwt_id"), ("iss", iss), ("jti", jti)]
  | samlAssertionId issuer id =>
    [("format", "saml_assertion_id"), ("issuer", issuer), ("assertion_id", id)]

/-- The object on the wire. -/
def toJson (s : SimpleSubject) : Json :=
  .obj (collect (s.members.map fun m => (m.1, .str m.2)))

/-- Read a simple identifier by its format. -/
def fromJson (value : Json) : Except SubjectError SimpleSubject := do
  let object ← okOr value.asObject .notAnObject
  let read := wireMember object
  let issuer := do (Issuer.parse parseUrl (← read "iss")).mapError fun _ => .notAUri "iss"
  match ← read "format" with
  | "account" => new parseUrl (.account (← read "uri"))
  | "email" => new parseUrl (.email (← read "email"))
  | "iss_sub" => new parseUrl (.issuerSubject (← issuer) (← read "sub"))
  | "opaque" => new parseUrl (.opaqueId (← read "id"))
  | "phone_number" => new parseUrl (.phoneNumber (← read "phone_number"))
  | "uri" => new parseUrl (.uri (← read "uri"))
  | "jwt_id" => new parseUrl (.jwtId (← issuer) (← read "jti"))
  | "saml_assertion_id" =>
    new parseUrl (.samlAssertionId (← read "issuer") (← read "assertion_id"))
  | _ => throw .unknownFormat

end SimpleSubject

/-- An identifier made of simple ones. -/
structure ComplexSubject where
  user : Option SimpleSubject
  device : Option SimpleSubject
  session : Option SimpleSubject
  application : Option SimpleSubject
  tenant : Option SimpleSubject
  orgUnit : Option SimpleSubject
  group : Option SimpleSubject
  deriving DecidableEq

namespace ComplexSubject

/-- The members of a complex identifier, with their fields. -/
def complexMembers : List (String × (ComplexSubject → Option SimpleSubject)) :=
  [("user", user), ("device", device), ("session", session), ("application", application),
    ("tenant", tenant), ("org_unit", orgUnit), ("group", group)]

/-- The members on the wire, present or not. -/
def fields (c : ComplexSubject) : List (String × Option Json) :=
  complexMembers.map fun m => (m.1, (m.2 c).map SimpleSubject.toJson)

/-- The object on the wire: the members that are present. -/
def toJson (c : ComplexSubject) : Json := record c.fields

/-- Read a complex identifier, which has at least one member and no unknown one. -/
def fromJson (value : Json) : Except SubjectError ComplexSubject := do
  let object ← okOr value.asObject .notAnObject
  refuseIf (∃ m ∈ object, m.1 ∉ complexMembers.map Prod.fst) .unknownMember
  let read name := (object.lookup name).mapM (SimpleSubject.fromJson parseUrl)
  let complex := ⟨← read "user", ← read "device", ← read "session", ← read "application",
    ← read "tenant", ← read "org_unit", ← read "group"⟩
  refuseIf (complex = ⟨none, none, none, none, none, none, none⟩) .noMembers
  pure complex

/-- The members that both have agree. -/
def matchesComplex (c other : ComplexSubject) : Bool :=
  complexMembers.all fun m => match m.2 c, m.2 other with
    | some mine, some theirs => mine = theirs
    | _, _ => true

end ComplexSubject

/-- A subject identifier. -/
inductive Subject
  | simple (s : SimpleSubject)
  | complex (c : ComplexSubject)

namespace Subject

variable (serde : Serde)

/-- The object on the wire. -/
def toJson : Subject → Json
  | simple s => s.toJson
  | complex c => c.toJson

/-- The text that the identifier is stored under. -/
def key (s : Subject) : String := serde.toString s.toJson

/-- Read an identifier: a simple one has a format. -/
def fromJson (value : Json) : Except SubjectError Subject := do
  let object ← okOr value.asObject .notAnObject
  let subject ← (if object.contains "format" then simple <$> SimpleSubject.fromJson parseUrl value
    else complex <$> ComplexSubject.fromJson parseUrl value)
  refuseIf (maxSubjectBytes < (subject.key serde).utf8ByteSize)
    (.tooLong "subject" (subject.key serde).utf8ByteSize maxSubjectBytes)
  pure subject

/-- A simple identifier matches itself, a complex one those it agrees with. -/
def matchesSubject : Subject → Subject → Bool
  | simple mine, simple theirs => mine = theirs
  | complex mine, complex theirs => mine.matchesComplex theirs
  | _, _ => false

end Subject

/-- What is assumed of the parser of URLs: the text of an `https` URL without the slashes at its end
is read as that URL, up to those slashes. -/
def Canonical : Prop :=
  ∀ raw url host, parseUrl raw = some url → url.scheme = "https" → url.username = "" →
    url.password = none → url.host = some host → url.query = none → url.fragment = none →
    ∃ path, Text.trimEnd '/' path = Text.trimEnd '/' url.path ∧
      parseUrl ("https://" ++ url.authority host ++ Text.trimEnd '/' url.path) =
        some { url with path := path }

variable {parseUrl}

theorem Canonical.parse_again (hurl : Canonical parseUrl) {raw iss : String}
    (h : Issuer.parse parseUrl raw = .ok iss) : Issuer.parse parseUrl iss = .ok iss := by
  simp only [Issuer.parse, bind_ok, refuseIf_ok, okOr_ok, pure_ok, Unique.exists_iff,
    not_not, not_or, Option.not_isSome_iff_eq_none] at h ⊢
  obtain ⟨url, hrd, hsch, hque, hfr, ⟨hu, hps⟩, host, hho, rfl⟩ := h
  obtain ⟨path, hp, hbk⟩ := hurl raw url host hrd hsch hu hps hho hque hfr
  refine ⟨_, hbk, hsch, hque, hfr, ⟨hu, hps⟩, host, hho, ?_⟩
  rw [← hp]
  rfl

namespace SimpleSubject

theorem eq_of_new {s s' : SimpleSubject} (h : new parseUrl s = .ok s') : s' = s := by
  cases s <;> simp [new, uriMember, member] at h <;> grind

/-- What an accepted identifier has passed. -/
theorem new_of_fromJson (hurl : Canonical parseUrl) {v : Json} {s : SimpleSubject}
    (h : fromJson parseUrl v = .ok s) : new parseUrl s = .ok s ∧
      ∀ iss, ("iss", iss) ∈ s.members → Issuer.parse parseUrl iss = .ok iss := by
  simp only [fromJson, bind_ok] at h
  obtain ⟨object, -, format, -, h⟩ := h
  split at h
  case h_9 => exact absurd h throw_ne_ok
  all_goals
    simp only [bind_ok, mapError_ok] at h
    grind [eq_of_new, members, Canonical.parse_again]

theorem fromJson_toJson (hurl : Canonical parseUrl) {v : Json} {s : SimpleSubject}
    (h : fromJson parseUrl v = .ok s) : fromJson parseUrl s.toJson = .ok s := by
  obtain ⟨hnew, hiss⟩ := new_of_fromJson hurl h
  cases s <;> simp only [members, List.mem_cons, Prod.mk.injEq] at hiss <;>
    simpa [fromJson, toJson, members, collect, insertAll, lookup_insert, wireMember,
      asObject, asStr, okOr, bind, Except.bind, Except.mapError, hiss] using hnew

theorem plain_toJson (s : SimpleSubject) : Plain 2 s.toJson := by
  refine plain_obj_collect ?_
  cases s <;> simp [members, plain_str] <;> decide

end SimpleSubject

namespace ComplexSubject

/-- A member is read back. -/
theorem read_back (hurl : Canonical parseUrl) {o o' : Option Json} {p : Option SimpleSubject}
    (h : o.mapM (SimpleSubject.fromJson parseUrl) = .ok p) (ho' : o' = p.map SimpleSubject.toJson) :
    o'.mapM (SimpleSubject.fromJson parseUrl) = .ok p := by
  subst ho'
  cases o with
  | none =>
    cases h
    rfl
  | some v =>
    obtain ⟨s, hs, rfl⟩ := map_ok.1 h
    exact map_ok.2 ⟨s, SimpleSubject.fromJson_toJson hurl hs, rfl⟩

theorem fromJson_toJson (hurl : Canonical parseUrl) {v : Json} {c : ComplexSubject}
    (h : fromJson parseUrl v = .ok c) :
    fromJson parseUrl c.toJson = .ok c ∧ lookup (recordMembers c.fields) "format" = none := by
  simp only [fromJson, bind_ok, refuseIf_ok, pure_ok, exists_const] at h ⊢
  obtain ⟨_, -, -, user, hu, device, hdev, session, hse, application, hap,
    tenant, hten, orgUnit, hor, group, hgro, hso, rfl⟩ := h
  obtain ⟨h₁, h₂, h₃, h₄, h₅, h₆, h₇⟩ := @forall_lookup_recordMembers
    (fields ⟨user, device, session, application, tenant, orgUnit, group⟩)
    (by simp [fields, complexMembers])
  refine ⟨⟨_, rfl, ?_, _, read_back hurl hu h₁, _, read_back hurl hdev h₂, _,
    read_back hurl hse h₃, _, read_back hurl hap h₄, _,
    read_back hurl hten h₅, _, read_back hurl hor h₆, _,
    read_back hurl hgro h₇, hso, rfl⟩,
    lookup_recordMembers_eq_none (by simp [fields, complexMembers])⟩
  rintro ⟨m, hm, hunk⟩
  have hfld := List.mem_map_of_mem (f := Prod.fst) (mem_of_mem_recordMembers hm)
  exact hunk (by simpa [fields, complexMembers] using hfld)

theorem plain_toJson (c : ComplexSubject) : Plain 3 c.toJson := by
  refine plain_obj_collect fun m hm => ?_
  have hfld := mem_present.1 hm
  have hnms : ∀ m ∈ c.fields, isSerdeJsonSentinel m.1 = false := by
    simp [fields, complexMembers]
    decide
  refine ⟨hnms _ hfld, ?_⟩
  simp only [fields, List.mem_map, Prod.mk.injEq, Option.map_eq_some_iff] at hfld
  obtain ⟨_, -, -, s, -, hs⟩ := hfld
  exact hs ▸ s.plain_toJson

theorem matchesComplex_iff {c c' : ComplexSubject} : c.matchesComplex c' = true ↔
    ∀ m ∈ complexMembers, ∀ a b, m.2 c = some a → m.2 c' = some b → a = b := by
  rw [matchesComplex, List.all_eq_true]
  refine forall₂_congr fun m _ => ?_
  cases m.2 c <;> cases m.2 c' <;> simp

end ComplexSubject

namespace Subject

variable {serde : Serde} {v : Json} {s : Subject}

theorem fromJson_toJson (hurl : Canonical parseUrl) (h : fromJson parseUrl serde v = .ok s) :
    fromJson parseUrl serde s.toJson = .ok s := by
  simp only [fromJson, bind_ok, refuseIf_ok, pure_ok, exists_const] at h ⊢
  obtain ⟨object, -, _, hrd, hsz, rfl⟩ := h
  split_ifs at hrd with hfo
  · obtain ⟨s, hs, rfl⟩ := map_ok.1 hrd
    refine ⟨_, rfl, _, ?_, hsz, rfl⟩
    have hmem : contains (collect (s.members.map fun m => (m.1, Json.str m.2))) "format" := by
      cases s <;> simp [contains, SimpleSubject.members, collect, insertAll, lookup_insert]
    rw [if_pos hmem]
    exact map_ok.2 ⟨s, SimpleSubject.fromJson_toJson hurl hs, rfl⟩
  · obtain ⟨c, hc, rfl⟩ := map_ok.1 hrd
    obtain ⟨hbk, hfo⟩ := ComplexSubject.fromJson_toJson hurl hc
    refine ⟨_, rfl, _, ?_, hsz, rfl⟩
    rw [if_neg (by simp [contains, hfo])]
    exact map_ok.2 ⟨c, hbk, rfl⟩

theorem plain_toJson (s : Subject) : Plain 127 s.toJson := by
  cases s with
  | simple s => exact s.plain_toJson.mono (by decide)
  | complex c => exact c.plain_toJson.mono (by decide)

end Subject

/-- **Subject identifiers.** -/
theorem subjects_round_trip (parseUrl : UrlParser) (hurl : Canonical parseUrl)
    (serde : Serde) (v v' : Json) (s s' : Subject) (h : Subject.fromJson parseUrl serde v = .ok s)
    (h' : Subject.fromJson parseUrl serde v' = .ok s') :
    Subject.fromJson parseUrl serde s.toJson = .ok s ∧
    (serde.fromStr (s.key serde)).map (Subject.fromJson parseUrl serde) = some (.ok s) ∧
    (s.key serde = s'.key serde ↔ s = s') ∧ s.matchesSubject s = true ∧
    s.matchesSubject s' = s'.matchesSubject s ∧
    ∀ c c', s = .complex c → s' = .complex c' → (s.matchesSubject s' = true ↔
      ∀ m ∈ ComplexSubject.complexMembers, ∀ a b, m.2 c = some a → m.2 c' = some b → a = b) := by
  have hbk := Subject.fromJson_toJson hurl h
  refine ⟨hbk, ?_, ?_, ?_, ?_, ?_⟩
  · rw [Subject.key, serde.fromStr_toString s.plain_toJson, Option.map_some, hbk]
  · rw [Subject.key, Subject.key, serde.toString_inj s.plain_toJson s'.plain_toJson]
    refine ⟨fun heq => ?_, congrArg _⟩
    rw [heq, Subject.fromJson_toJson hurl h'] at hbk
    exact (Except.ok.inj hbk).symm
  · cases s with
    | simple => simp [Subject.matchesSubject]
    | complex => exact ComplexSubject.matchesComplex_iff.2 (by grind)
  · rcases s with _ | _ <;> rcases s' with _ | _ <;> try rfl
    · simp [Subject.matchesSubject, eq_comm]
    · rw [Bool.eq_iff_iff, Subject.matchesSubject, Subject.matchesSubject,
        ComplexSubject.matchesComplex_iff, ComplexSubject.matchesComplex_iff]
      grind
  · rintro c c' rfl rfl
    exact ComplexSubject.matchesComplex_iff

/-- A parser that knows one URL. -/
def readIssuer (raw : String) : Option Url :=
  if raw = "https://as.example" then
    some ⟨"https", "", none, some "as.example", none, "/", none, none, false⟩
  else none

theorem subjects_round_trip_issuer :
    let s : Subject := .simple (.issuerSubject "https://as.example" "u")
    let s' : Subject := .complex ⟨some (.email "u"), none, none, none, none, none, none⟩
    Canonical readIssuer ∧ s.key .compact ≠ s'.key .compact := by
  intro s s'
  have hcan : Canonical readIssuer := by
    intro raw url host h _ _ _ hho _ _
    obtain ⟨-, h⟩ := Option.ite_none_right_eq_some.1 h
    cases h
    cases hho
    exact ⟨"/", rfl, by rfl⟩
  obtain ⟨-, -, hks, -⟩ := subjects_round_trip readIssuer hcan .compact s.toJson s'.toJson
    s s' (by rfl) (by rfl)
  refine ⟨hcan, fun heq => ?_⟩
  have hsm : s = s' := hks.1 heq
  simp [s, s'] at hsm

end AsteriusIdp.Ssf
