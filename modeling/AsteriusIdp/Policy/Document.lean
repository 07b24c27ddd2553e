import AsteriusIdp.Json.Record
import AsteriusIdp.Claims.Name
import AsteriusIdp.Policy.Conditional

/-!
# Policy documents

The JSON document an administrator writes, the bounds it is held to and how it is written back.
Reading stops at the first error, which names the place in the document.

`Document.fromJson` is the reader, `Document.toJson` the encoder.  The encoder leaves out what is
absent or empty in a rule and spells out the defaults of a conditional scope.

The texts of floats and of IP networks belong to other libraries and are parameters (`Format`).
-/

namespace AsteriusIdp.Policy

open Fallible

/-- How floats and IP networks are written. -/
structure Format (ν : Type) where
  floatSize : ℚ → ℕ
  parseNet : String → Option ν
  showNet : ν → String
  parseNet_showNet : ∀ net, parseNet (showNet net) = some net

/-- Rules in a document. -/
def maxRules : ℕ := 128

/-- Nodes of a condition. -/
def maxConditions : ℕ := 64

/-- Nesting of a condition. -/
def maxDepth : ℕ := 8

/-- Values of a test. -/
def maxValues : ℕ := 64

/-- Actions of a rule. -/
def maxActions : ℕ := 32

/-- Step-up hints of a rule. -/
def maxAcrHints : ℕ := 8

/-- Bytes of a string. -/
def maxString : ℕ := 256

/-- Bytes of a reason. -/
def maxReason : ℕ := 512

/-- Bytes of a document. -/
def maxDocumentBytes : ℕ := 64 * 1024

/-- Why a document is refused. -/
inductive DocumentError
  | tooLarge
  | malformed (reason : String)
  | version (found : ℕ)
  | tooManyRules
  | duplicateRule (id : String)
  | value (path reason : String)
  | effect (path : String)
  | condition (path reason : String)
  | tooDeep (path : String)
  | tooManyConditions (path : String)
  deriving DecidableEq, Repr

/-! ### Texts -/

/-- The identifier of a rule. -/
def PolicyRuleId.parse (path raw : String) : Except DocumentError String := do
  refuseIf (raw = "" ∨ maxString < raw.utf8ByteSize)
    (.value path "a rule id is empty or over-long")
  refuseIf (raw.toList.any fun c => isControl c || Text.isWhitespace c)
    (.value path "a rule id carries whitespace or a control character")
  pure raw

/-- A string that is not empty, not long and without control characters. -/
def boundedString (v : Json) (path : String) : Except DocumentError String := do
  let raw ← okOr v.asStr (.value path "it is not a string")
  refuseIf (raw = "" ∨ maxString < raw.utf8ByteSize)
    (.value path "it is empty or longer than the bound")
  refuseIf (raw.toList.any isControl) (.value path "it carries a control character")
  pure raw

/-- A member that may be left out or null. -/
def optionalString (object : Object) (member path : String) :
    Except DocumentError (Option String) :=
  match object.lookup member with
  | none | some .null => .ok none
  | some v => some <$> boundedString v (path ++ "." ++ member)

/-- A reason, if there is one. -/
def optionalReason (object : Object) (member path : String) :
    Except DocumentError (Option String) :=
  match object.lookup member with
  | none | some .null => .ok none
  | some (.str raw) => do
    refuseIf (raw = "" ∨ maxReason < raw.utf8ByteSize)
      (.value (path ++ "." ++ member) "a reason is empty or longer than the bound")
    refuseIf (raw.toList.any isControl)
      (.value (path ++ "." ++ member) "a reason carries a control character")
    pure (some raw)
  | some _ => .error (.value (path ++ "." ++ member) "a reason is not a string")

/-- The strings of an array, each at its place. -/
def boundedStrings (path : String) : ℕ → List Json → Except DocumentError (List String)
  | _, [] => .ok []
  | index, v :: vs => do
    let s ← boundedString v (path ++ "[" ++ toString index ++ "]")
    let rest ← boundedStrings path (index + 1) vs
    pure (s :: rest)

/-! ### Conditions -/

/-- Its name in a document. -/
def Source.asStr : Source → String
  | .subject => "subject"
  | .resource => "resource"
  | .action => "action"
  | .context => "context"

/-- The source of a name. -/
def Source.parse (raw : String) : Option Source :=
  [Source.subject, .resource, .action, .context].find? (·.asStr = raw)

/-- A literal is not long. -/
def boundedLiteral (v : Json) (path : String) : Except DocumentError Unit :=
  match v with
  | .str raw => do
    refuseIf (maxString < raw.utf8ByteSize) (.value path "a literal is over-long")
    refuseIf (raw.toList.any isControl) (.value path "a literal carries a control character")
  | .bool _ | .num _ | .null => .ok ()
  | .arr _ | .obj _ =>
    .error (.value path "a literal must be a string, a number, a boolean or null")

/-- Nor is one of a list. -/
def boundedLiterals (path : String) : ℕ → List Json → Except DocumentError Unit
  | _, [] => .ok ()
  | index, v :: vs => do
    boundedLiteral v (path ++ ".in[" ++ toString index ++ "]")
    boundedLiterals path (index + 1) vs

/-- `equals` or `in`, not both. -/
def parseTest (object : Object) (path : String) : Except DocumentError AttributeTest :=
  match object.lookup "equals", object.lookup "in" with
  | some expected, none => do
    boundedLiteral expected (path ++ ".equals")
    pure (.equals expected)
  | none, some values => do
    let items ← okOr values.asArray (.condition path "in takes an array of values")
    refuseIf (maxValues < items.length)
      (.condition path "in lists more values than the bound allows")
    boundedLiterals path 0 items
    pure (.in_ items)
  | _, _ => .error (.condition path "attribute takes exactly one of equals and in")

/-- A test of an attribute. -/
def parseAttribute (body : Json) (path : String) : Except DocumentError Condition := do
  let object ← okOr body.asObject (.condition path "attribute takes an object")
  let source ← okOr (((object.lookup "of").bind Json.asStr).bind Source.parse)
    (.condition path "of must be subject, resource, action or context")
  let value ← okOr (object.lookup "name") (.condition path "attribute names no name")
  let name ← boundedString value (path ++ ".name")
  let test ← parseTest object path
  pure (.attr source name test)

/-- The parser of the role catalogue. -/
def isRoleName (raw : String) : Bool :=
  raw ≠ "" && raw.utf8ByteSize ≤ 64 &&
  raw.toList.all (fun c => ('a' ≤ c && c ≤ 'z') || ('0' ≤ c && c ≤ '9') || c ∈ ['-', '_', '.', ':'])
  && raw.toList.head?.any (fun c => c.isAlphanum)

/-- Whose role it is; any if not said. -/
def parseOwner (object : Object) (path : String) : Except DocumentError (Option RoleOwner) :=
  match object.lookup "owner" with
  | none | some .null => .ok none
  | some v =>
    if v = .str "tenant" then .ok (some .tenant)
    else (some ∘ RoleOwner.client) <$> boundedString v (path ++ ".owner")

/-- A test for a role. -/
def parseRole (body : Json) (path : String) : Except DocumentError Condition := do
  let object ← okOr body.asObject (.condition path "role takes an object")
  let value ← okOr (object.lookup "name") (.condition path "role names no name")
  let raw ← boundedString value (path ++ ".name")
  refuseIf (¬isRoleName raw) (.value (path ++ ".name") "it is not an application role name")
  let owner ← parseOwner object path
  pure (.role owner raw)

/-- What a test of grants may name. -/
def grantMembers : List String := ["resource", "scope", "detail_type", "action", "client"]

/-- A resource, or the one asked about. -/
def GrantResource.ofText (raw : String) : GrantResource :=
  if raw = "$resource.id" then .theResource else .literal raw

/-- A test of the grants. -/
def parseGrant (body : Json) (path : String) : Except DocumentError Condition := do
  let object ← okOr body.asObject (.condition path "grant takes an object")
  refuseIf (object = []) (.condition path "grant names nothing to match")
  refuseIf (object.any (·.1 ∉ grantMembers))
    (.condition path "grant takes resource, scope, detail_type, action and client")
  let resource ← optionalString object "resource" path
  let scope ← optionalString object "scope" path
  let detailType ← optionalString object "detail_type" path
  let action ← optionalString object "action" path
  let client ← optionalString object "client" path
  pure (.grant ⟨resource.map .ofText, scope, detailType, action, client⟩)

/-- A name for a network zone. -/
def isZoneName (name : String) : Bool :=
  name ≠ "" && name.utf8ByteSize ≤ 128 &&
  name.toList.all fun c => c.isAlphanum || c ∈ ['-', '_', '.']

/-- Of an application. -/
def sensitivities : List String := ["standard", "sensitive", "critical"]

/-- Of a device. -/
def compliances : List String := ["compliant", "non_compliant", "unknown"]

/-- A trusted predicate, if the name is one. -/
def TrustedPredicate.parse (name : String) (v : Json) :
    Except DocumentError (Option TrustedPredicate) :=
  let invalid := DocumentError.malformed "invalid trusted conditional predicate"
  match name with
  | "application_sensitivity" =>
    (some ∘ .sensitivity) <$> okOr (v.asStr.filter (· ∈ sensitivities)) invalid
  | "network_zone" => (some ∘ .networkZone) <$> okOr (v.asStr.filter isZoneName) invalid
  | "authentication_age_at_most" =>
    (fun n => some (.authenticationAgeAtMost (.ofNat n))) <$>
      okOr (v.asU64.filter fun n => 60 ≤ n ∧ n ≤ 86400) invalid
  | "device_compliance" =>
    (some ∘ .deviceCompliance) <$> okOr (v.asStr.filter (· ∈ compliances)) invalid
  | _ => .ok none

/-- The loop over the children of a condition.  The budget is shared by all of them. -/
def parseChildren (parse : String → Json → ℕ → Except DocumentError (Condition × ℕ))
    (path : String) : ℕ → List Json → ℕ → Except DocumentError (List Condition × ℕ)
  | _, [], budget => .ok ([], budget)
  | index, v :: vs, budget => do
    let (child, budget) ← parse (path ++ "[" ++ toString index ++ "]") v budget
    let (children, budget) ← parseChildren parse path (index + 1) vs budget
    pure (child :: children, budget)

/-- A condition that is not a combination of others. -/
def parseLeaf (path name : String) (body : Json) : Except DocumentError Condition :=
  match name with
  | "attribute" => parseAttribute body (path ++ ".attribute")
  | "group" => .group <$> boundedString body (path ++ ".group")
  | "role" => parseRole body (path ++ ".role")
  | "grant" => parseGrant body (path ++ ".grant")
  | "acr_at_least" => .acrAtLeast <$> boundedString body (path ++ ".acr_at_least")
  | _ => do
    let predicate ← TrustedPredicate.parse name body
    .trusted <$> okOr predicate (.condition path "no condition of that name exists")

/-- A condition and what is left of the budget.  The first argument is how many levels are
left. -/
def parseCondition : ℕ → String → Json → ℕ → Except DocumentError (Condition × ℕ)
  | 0, path, _, _ => .error (.tooDeep path)
  | _ + 1, path, _, 0 => .error (.tooManyConditions path)
  | levels + 1, path, v, budget + 1 => do
    let object ← okOr v.asObject (.condition path "a condition is not an object")
    match object with
    | [(name, body)] =>
      match name with
      | "all" => do
        let items ← okOr body.asArray (.condition path "all and any take an array of conditions")
        let (children, budget) ←
          parseChildren (parseCondition levels) (path ++ ".all") 0 items budget
        pure (.all children, budget)
      | "any" => do
        let items ← okOr body.asArray (.condition path "all and any take an array of conditions")
        let (children, budget) ←
          parseChildren (parseCondition levels) (path ++ ".any") 0 items budget
        pure (.any children, budget)
      | "not" => do
        let (child, budget) ← parseCondition levels (path ++ ".not") body budget
        pure (.not child, budget)
      | name => do
        let leaf ← parseLeaf path name body
        pure (leaf, budget)
    | _ => .error (.condition path "a condition object names exactly one condition")

/-! ### Rules -/

/-- Its name in a document. -/
def Effect.asStr : Effect → String
  | .permit => "permit"
  | .deny => "deny"

/-- The effect of a name. -/
def Effect.parse (raw : String) : Option Effect := [Effect.permit, .deny].find? (·.asStr = raw)

/-- The actions of a rule; none means every action. -/
def parseActions (object : Object) (path : String) : Except DocumentError (Finset String) :=
  match object.lookup "actions" with
  | none | some .null => .ok ∅
  | some (.arr items) => do
    refuseIf (maxActions < items.length)
      (.value (path ++ ".actions") "more action names than a rule may name")
    List.toFinset <$> boundedStrings (path ++ ".actions") 0 items
  | some _ => .error (.value (path ++ ".actions") "actions is not an array")

/-- The step-up hints of a rule. -/
def parseAcrValues (object : Object) (path : String) : Except DocumentError (List String) :=
  match object.lookup "acr_values" with
  | none | some .null => .ok []
  | some (.arr items) => do
    refuseIf (maxAcrHints < items.length)
      (.value (path ++ ".acr_values") "more step-up hints than a rule may carry")
    boundedStrings (path ++ ".acr_values") 0 items
  | some _ => .error (.value (path ++ ".acr_values") "acr_values is not an array")

/-- The condition of a rule. -/
def parseWhen (object : Object) (path : String) : Except DocumentError (Option Condition) :=
  match object.lookup "when" with
  | none | some .null => .ok none
  | some v => (fun r => some r.1) <$> parseCondition maxDepth (path ++ ".when") v maxConditions

/-- The rule at an index. -/
def parseRule (index : ℕ) (entry : Json) : Except DocumentError Rule := do
  let path := "rules[" ++ toString index ++ "]"
  let object ← okOr entry.asObject (.value path "a rule is not an object")
  let raw ← okOr ((object.lookup "id").bind Json.asStr) (.value path "a rule carries no string id")
  let id ← PolicyRuleId.parse (path ++ ".id") raw
  let effect ← okOr (((object.lookup "effect").bind Json.asStr).bind Effect.parse) (.effect path)
  let subjectType ← optionalString object "subject_type" path
  let resourceType ← optionalString object "resource_type" path
  let actions ← parseActions object path
  let when ← parseWhen object path
  let reasonAdmin ← optionalReason object "reason_admin" path
  let reasonUser ← optionalReason object "reason_user" path
  let acrValues ← parseAcrValues object path
  pure { id, effect, subjectType, resourceType, actions, when, reasonAdmin, reasonUser, acrValues }

/-- The loop over the rules, with the identifiers seen so far. -/
def parseRules : ℕ → List Json → List String → Except DocumentError (List Rule)
  | _, [], _ => .ok []
  | index, entry :: entries, seen => do
    let rule ← parseRule index entry
    refuseIf (rule.id ∈ seen) (.duplicateRule rule.id)
    let rules ← parseRules (index + 1) entries (rule.id :: seen)
    pure (rule :: rules)

/-- The version is 1. -/
def parseVersion (object : Object) : Except DocumentError Unit :=
  match object.lookup "version" with
  | some (.num n) => do
    let version ← okOr (Json.asU64 (.num n)) (.malformed "version is not an integer")
    refuseIf (version ≠ 1) (.version version)
  | some _ => .error (.malformed "version is not a number")
  | none => .error (.malformed "it declares no version")

/-- What every document has, with or without conditional scopes: its size, its version and its
rules. -/
def parseHead (floatSize : ℚ → ℕ) (document : Json) :
    Except DocumentError (Object × List Rule) := do
  refuseIf (maxDocumentBytes < document.byteSize floatSize) .tooLarge
  let object ← okOr document.asObject (.malformed "it is not an object")
  parseVersion object
  let entries ← okOr ((object.lookup "rules").bind Json.asArray)
    (.malformed "rules is not an array")
  refuseIf (maxRules < entries.length) .tooManyRules
  let rules ← parseRules 0 entries []
  pure (object, rules)

/-! ### Conditional scopes -/

/-- Whether a scope decides or only reports. -/
inductive EnforcementMode
  | active
  | reportOnly
  deriving DecidableEq, Repr

/-- The modes. -/
def EnforcementMode.all : List EnforcementMode := [.active, .reportOnly]

/-- Its name in a document. -/
def EnforcementMode.asStr : EnforcementMode → String
  | .active => "active"
  | .reportOnly => "report_only"

/-- The facts. -/
def FactName.all : List FactName :=
  [.assurance, .authenticationAge, .applicationSensitivity, .networkZone, .deviceCompliance,
    .groups, .roles, .grants]

/-- Its name in a document. -/
def FactName.asStr : FactName → String
  | .assurance => "assurance"
  | .authenticationAge => "authentication_age"
  | .applicationSensitivity => "application_sensitivity"
  | .networkZone => "network_zone"
  | .deviceCompliance => "device_compliance"
  | .groups => "groups"
  | .roles => "roles"
  | .grants => "grants"

/-- A conditional scope of a document. -/
structure DocumentScope (ν : Type) extends ConditionalScope where
  mode : EnforcementMode
  id : String
  assuranceRemedy : Option String
  networkZones : Entries String (List ν)

/-- The members of a scope before its checks. -/
structure Wire (ν : Type) where
  mode : EnforcementMode
  id : String
  clients : List String
  actions : List String
  requiredFacts : List FactName
  rules : List Json
  assuranceRemedy : Option String
  networkZones : Entries String (List ν)

/-- A variant of an enumeration: its name, or an object of its name and null. -/
def readVariant {α : Type} (variants : List α) (asStr : α → String) (v : Json) : Option α :=
  match v with
  | .str raw => variants.find? (asStr · = raw)
  | .obj [(raw, .null)] => variants.find? (asStr · = raw)
  | _ => none

/-- An array of strings. -/
def readStrings (v : Json) : Option (List String) := v.asArray.bind (·.mapM Json.asStr)

/-- A string or `null`. -/
def readOptionalString (v : Json) : Option (Option String) :=
  if v = .null then some none else some <$> v.asStr

variable {ν : Type}

/-- The networks of each zone. -/
def readZones (format : Format ν) (v : Json) : Option (Entries String (List ν)) :=
  v.asObject.bind fun members => members.mapM fun m =>
    (readStrings m.2).bind fun texts => (m.1, ·) <$> texts.mapM format.parseNet

/-- What a scope may have. -/
def wireMembers : List String :=
  ["mode", "id", "clients", "actions", "required_facts", "rules", "assurance_remedy",
    "network_zones"]

/-- A member that has a default when it is left out. -/
def readDefault {α : Type} (default : α) (read : Json → Option α) : Option Json → Option α
  | none => some default
  | some v => read v

/-- The eight members, those that may be left out as options. -/
def Wire.read (format : Format ν) (mode id clients actions : Json) (requiredFacts : Option Json)
    (rules : Json) (assuranceRemedy networkZones : Option Json) : Option (Wire ν) := do
  let mode ← readVariant EnforcementMode.all EnforcementMode.asStr mode
  let id ← id.asStr
  let clients ← readStrings clients
  let actions ← readStrings actions
  let requiredFacts ← readDefault []
    (fun v => v.asArray.bind (·.mapM (readVariant FactName.all FactName.asStr))) requiredFacts
  let rules ← rules.asArray
  let assuranceRemedy ← readDefault none readOptionalString assuranceRemedy
  let networkZones ← readDefault [] (readZones format) networkZones
  pure { mode, id, clients, actions, requiredFacts, rules, assuranceRemedy, networkZones }

/-- The derived deserializer: an object without unknown members, or the members in their order. -/
def Wire.fromValue (format : Format ν) : Json → Option (Wire ν)
  | .obj members => do
    guard (members.all (·.1 ∈ wireMembers))
    let mode ← Entries.lookup members "mode"
    let id ← Entries.lookup members "id"
    let clients ← Entries.lookup members "clients"
    let actions ← Entries.lookup members "actions"
    let rules ← Entries.lookup members "rules"
    Wire.read format mode id clients actions (Entries.lookup members "required_facts") rules
      (Entries.lookup members "assurance_remedy") (Entries.lookup members "network_zones")
  | .arr [mode, id, clients, actions, requiredFacts, rules, assuranceRemedy] =>
    Wire.read format mode id clients actions (some requiredFacts) rules (some assuranceRemedy) none
  | .arr [mode, id, clients, actions, requiredFacts, rules, assuranceRemedy, networkZones] =>
    Wire.read format mode id clients actions (some requiredFacts) rules (some assuranceRemedy)
      (some networkZones)
  | _ => none

/-- What a scope may govern. -/
def enforcementActions : List String :=
  ["authorize", "authorization_code", "refresh_token", "device_code", "ciba", "token_exchange",
    "client_credentials", "jwt_bearer", "access_evaluation"]

/-- A text of at most `max` bytes without control characters. -/
def isText (max : ℕ) (s : String) : Bool :=
  s ≠ "" && s.utf8ByteSize ≤ max && !s.toList.any isControl

/-- Some texts, not too many and none of them twice. -/
def boundedList (max : ℕ) (values : List String) : Bool :=
  values ≠ [] && values.length ≤ max && values.all (isText 256) && decide values.Nodup

/-- The lists are short and repeat nothing. -/
def Wire.bounded (wire : Wire ν) : Bool :=
  isText 128 wire.id && boundedList 64 wire.clients && boundedList 32 wire.actions &&
  wire.requiredFacts.length ≤ 32 && decide wire.requiredFacts.Nodup &&
  wire.assuranceRemedy.all (isText 256)

variable [DecidableEq ν]

/-- So are the zones. -/
def Wire.zonesBounded (wire : Wire ν) : Bool :=
  wire.networkZones.length ≤ 64 && wire.networkZones.all fun zone =>
    isZoneName zone.1 && zone.2 ≠ [] && zone.2.length ≤ 16 && decide zone.2.Nodup

/-- The zones a rule tests are among those of the scope. -/
def zonesDefined (zones : Entries String (List ν)) (rule : Rule) : Bool :=
  rule.when.all fun c => c.nodes.all fun node =>
    match node with
    | .trusted (.networkZone name) => zones.contains name
    | _ => true

/-- A conditional scope. -/
def DocumentScope.parse (format : Format ν) (v : Json) :
    Except DocumentError (DocumentScope ν) := do
  let wire ← okOr (Wire.fromValue format v) (.malformed "invalid conditional scope")
  refuseIf (¬wire.bounded) (.malformed "conditional scope exceeds bounds or repeats values")
  refuseIf (wire.actions.any (· ∉ enforcementActions))
    (.malformed "unsupported conditional enforcement action")
  refuseIf (¬wire.zonesBounded) (.malformed "invalid bounded network zones")
  let (_, rules) ← parseHead format.floatSize
    (Json.record [("version", some (.num (.posInt 1))), ("rules", some (.arr wire.rules))])
  refuseIf (rules.any fun rule => !zonesDefined wire.networkZones rule)
    (.malformed "network predicate references an undefined zone")
  pure
    { mode := wire.mode, id := wire.id, clients := wire.clients.toFinset,
      actions := wire.actions.toFinset, requiredFacts := wire.requiredFacts.toFinset,
      rules := ⟨rules⟩, assuranceRemedy := wire.assuranceRemedy,
      networkZones := wire.networkZones }

/-! ### Documents -/

/-- The rules of a tenant, with its conditional scopes. -/
structure Document (ν : Type) extends RuleSet where
  conditionalScopes : List (DocumentScope ν)

/-- Does the condition read the trusted snapshot? -/
def Condition.containsTrusted (c : Condition) : Bool :=
  c.nodes.any fun node => match node with
    | .trusted _ => true
    | _ => false

/-- Two scopes that may not stand in one document. -/
def DocumentScope.clashes (a b : DocumentScope ν) : Bool :=
  a.id = b.id ∨ ¬Disjoint a.clients b.clients ∧ ¬Disjoint a.actions b.actions

/-- The loop over the scopes, with those read so far. -/
def parseScopes (format : Format ν) :
    List Json → List (DocumentScope ν) → Except DocumentError (List (DocumentScope ν))
  | [], _ => .ok []
  | v :: vs, seen => do
    let scope ← DocumentScope.parse format v
    refuseIf (seen.any (·.clashes scope))
      (.malformed "conditional scopes overlap or repeat identities")
    let scopes ← parseScopes format vs (seen ++ [scope])
    pure (scope :: scopes)

/-- The conditional scopes of a document. -/
def parseConditionalScopes (format : Format ν) (object : Object) :
    Except DocumentError (List (DocumentScope ν)) :=
  match object.lookup "conditional_scopes" with
  | none => .ok []
  | some v => do
    let scopes ← okOr (v.asArray.filter (·.length ≤ 64))
      (.malformed "conditional_scopes must be an array of at most 64 scopes")
    parseScopes format scopes []

/-- A document that is read and checked. -/
def Document.fromJson (format : Format ν) (document : Json) :
    Except DocumentError (Document ν) := do
  let (object, rules) ← parseHead format.floatSize document
  refuseIf (rules.any fun rule => rule.when.any Condition.containsTrusted)
    (.malformed "trusted predicates require an explicit conditional scope")
  let conditionalScopes ← parseConditionalScopes format object
  refuseIf (maxRules < rules.length + (conditionalScopes.map (·.rules.rules.length)).sum)
    .tooManyRules
  pure { rules, conditionalScopes }

/-! ### The encoder -/

/-- Strings as an array. -/
def jsonStrings (texts : List String) : Json := .arr (texts.map .str)

/-- A list that is left out when it is empty. -/
def nonemptyStrings (texts : List String) : Option Json :=
  if texts = [] then none else some (jsonStrings texts)

/-- As a document has it. -/
def GrantResource.text : GrantResource → String
  | .theResource => "$resource.id"
  | .literal raw => raw

/-- As a document has it. -/
def RoleOwner.text : RoleOwner → String
  | .tenant => "tenant"
  | .client id => id

/-- The member of a test. -/
def AttributeTest.fields : AttributeTest → List (String × Option Json)
  | .equals v => [("equals", some v)]
  | .in_ values => [("in", some (.arr values))]

/-- The members of a test of grants. -/
def GrantMatch.fields (matcher : GrantMatch) : List (String × Option Json) :=
  [("resource", matcher.resource.map (.str ·.text)), ("scope", matcher.scope.map .str),
    ("detail_type", matcher.detailType.map .str), ("action", matcher.action.map .str),
    ("client", matcher.client.map .str)]

/-- A predicate as a member. -/
def TrustedPredicate.toJson : TrustedPredicate → String × Json
  | .sensitivity value => ("application_sensitivity", .str value)
  | .networkZone value => ("network_zone", .str value)
  | .authenticationAgeAtMost value =>
    ("authentication_age_at_most", .num (.posInt value.toUInt64))
  | .deviceCompliance value => ("device_compliance", .str value)

namespace Condition

mutual

/-- A condition as a value. -/
def toJson : Condition → Json
  | .all children => .obj [("all", .arr (toJsonAll children))]
  | .any children => .obj [("any", .arr (toJsonAll children))]
  | .not child => .obj [("not", toJson child)]
  | .attr source name test =>
    .obj [("attribute", .record
      ([("of", some (.str source.asStr)), ("name", some (.str name))] ++ test.fields))]
  | .group name => .obj [("group", .str name)]
  | .role owner name =>
    .obj [("role", .record [("name", some (.str name)), ("owner", owner.map (.str ·.text))])]
  | .grant matcher => .obj [("grant", .record matcher.fields)]
  | .acrAtLeast value => .obj [("acr_at_least", .str value)]
  | .trusted predicate => .obj [predicate.toJson]

/-- Conditions as values. -/
def toJsonAll : List Condition → List Json
  | [] => []
  | child :: children => toJson child :: toJsonAll children

end

@[simp]
theorem toJsonAll_eq (cs : List Condition) : toJsonAll cs = cs.map toJson := by
  induction cs with
  | nil => simp [toJsonAll]
  | cons child cs ih => simp [toJsonAll, ih]

end Condition

/-- The members of a rule. -/
def Rule.fields (rule : Rule) : List (String × Option Json) :=
  [("id", some (.str rule.id)), ("effect", some (.str rule.effect.asStr)),
    ("subject_type", rule.subjectType.map .str), ("resource_type", rule.resourceType.map .str),
    ("actions", nonemptyStrings rule.actions.sort), ("when", rule.when.map Condition.toJson),
    ("reason_admin", rule.reasonAdmin.map .str), ("reason_user", rule.reasonUser.map .str),
    ("acr_values", nonemptyStrings rule.acrValues)]

/-- A rule as a value. -/
def Rule.toJson (rule : Rule) : Json := .record rule.fields

/-- Rules as an array. -/
def rulesJson (rules : List Rule) : Json := .arr (rules.map Rule.toJson)

/-- The facts of a set, in the order of their declaration. -/
def factsJson (facts : Finset FactName) : Json :=
  .arr ((FactName.all.filter (· ∈ facts)).map (.str ·.asStr))

/-- Zones as an object. -/
def zonesJson (format : Format ν) (zones : Entries String (List ν)) : Json :=
  .obj (zones.map fun zone => (zone.1, .arr (zone.2.map (.str <| format.showNet ·))))

omit [DecidableEq ν] in
/-- Every member of a scope is written, whether or not the scope has its default. -/
def DocumentScope.toJson (format : Format ν) (scope : DocumentScope ν) : Json :=
  .record
    [("mode", some (.str scope.mode.asStr)), ("id", some (.str scope.id)),
      ("clients", some (jsonStrings scope.clients.sort)),
      ("actions", some (jsonStrings scope.actions.sort)),
      ("required_facts", some (factsJson scope.requiredFacts)),
      ("rules", some (rulesJson scope.rules.rules)),
      ("assurance_remedy", some ((scope.assuranceRemedy.map .str).getD .null)),
      ("network_zones", some (zonesJson format scope.networkZones))]

/-- The document as it is stored. -/
def Document.toJson (format : Format ν) (document : Document ν) : Json :=
  .record
    [("version", some (.num (.posInt 1))), ("rules", some (rulesJson document.rules)),
      ("conditional_scopes",
        if document.conditionalScopes = [] then none
        else some (.arr (document.conditionalScopes.map (·.toJson format))))]

end AsteriusIdp.Policy
