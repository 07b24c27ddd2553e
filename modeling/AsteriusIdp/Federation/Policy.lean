import AsteriusIdp.Federation.Statement

/-!
# Metadata policy resolution

`resolve` turns an authenticated chain into the leaf's resolved metadata: the direct superior's
overrides, then from the anchor downwards the constraints and the merging of every subordinate
statement's `metadata_policy` into one combined policy, and last the application of the combined
policy to the metadata.

The chain is ordered leaf first, trust anchor last.
-/

namespace AsteriusIdp.Federation

open Fallible

/-- The operators a metadata policy may use. -/
inductive Operator where
  | value
  | add
  | default
  | oneOf
  | subsetOf
  | supersetOf
  | essential
  deriving DecidableEq

namespace Operator

/-- The member name of an operator. -/
def key : Operator → String
  | value => "value"
  | add => "add"
  | default => "default"
  | oneOf => "one_of"
  | subsetOf => "subset_of"
  | supersetOf => "superset_of"
  | essential => "essential"

/-- The operators in the order the source lists them. -/
def all : List Operator := [value, add, default, oneOf, subsetOf, supersetOf, essential]

/-- The operator a member name stands for; other members are ignored extensions. -/
def ofKey (name : String) : Option Operator := all.find? fun op => op.key = name

end Operator

/-! ### Reading policies -/

/-- The members of a value that has to be an object. -/
def object (value : Json) (what : String) : Except ChainError Object :=
  okOr value.asObject (.invalid what)

/-- The texts of a value that has to be an array of strings. -/
def strings (value : Json) (what : String) : Except ChainError (List String) := do
  let items ← okOr value.asArray (.invalid what)
  items.mapM fun item => okOr item.asStr (.invalid what)

/-- Values and defaults are scalars or arrays; only a value may be null. -/
def validScalarOrArray (value : Json) (nullable : Bool) : Except ChainError Unit :=
  match value with
  | .null => refuseIf (nullable = false) (.unsupported "object metadata policy value")
  | .str _ | .num _ | .bool _ | .arr _ => pure ()
  | .obj _ => .error (.unsupported "object metadata policy value")

/-- The operand has the type of its operator. -/
def validateOperand (name : String) (value : Json) : Except ChainError Unit :=
  match Operator.ofKey name with
  | some .value => validScalarOrArray value true
  | some .default => validScalarOrArray value false
  | some .add | some .oneOf | some .subsetOf | some .supersetOf => do
    let _ ← strings value "array policy operator"
  | some .essential => refuseIf value.asBool.isNone (.invalid "essential policy operator")
  | none => pure ()

/-- `one_of` combines with no array operator. -/
def checkOneOfAlone (operators : Object) : Except ChainError Unit :=
  refuseIf (operators.contains "one_of" ∧
      ∃ name ∈ ["add", "subset_of", "superset_of"], operators.contains name)
    (.invalid "incompatible one_of policy operators")

/-- What has to be there is allowed. -/
def checkSupersetInSubset (operators : Object) : Except ChainError Unit :=
  match operators.lookup "subset_of", operators.lookup "superset_of" with
  | some subset, some superset => do
    let subset ← strings subset "subset_of"
    let superset ← strings superset "superset_of"
    refuseIf (∃ item ∈ superset, item ∉ subset) (.invalid "incompatible subset and superset policy")
  | _, _ => pure ()

/-- A fixed value is one of the allowed ones. -/
def checkValueOneOf (operators : Object) (value : Json) : Except ChainError Unit :=
  match operators.lookup "one_of" with
  | some oneOf =>
    refuseIf (¬∃ items ∈ oneOf.asArray, value ∈ items) (.invalid "value outside one_of policy")
  | none => pure ()

/-- A fixed value contains what is added to it. -/
def checkValueAdd (operators : Object) (value : Json) : Except ChainError Unit :=
  match operators.lookup "add" with
  | some add => do
    let array ← okOr value.asArray (.invalid "value and add policy types")
    refuseIf (¬∃ items ∈ add.asArray, ∀ item ∈ items, item ∈ array)
      (.invalid "value excludes add policy")
  | none => pure ()

/-- A fixed value is inside the allowed items. -/
def checkValueSubset (operators : Object) (value : Json) : Except ChainError Unit :=
  match operators.lookup "subset_of" with
  | some subset => do
    let array ← okOr value.asArray (.invalid "value and subset policy types")
    refuseIf (¬∀ item ∈ array, ∃ items ∈ subset.asArray, item ∈ items)
      (.invalid "value exceeds subset policy")
  | none => pure ()

/-- A fixed value has the required items. -/
def checkValueSuperset (operators : Object) (value : Json) : Except ChainError Unit :=
  match operators.lookup "superset_of" with
  | some superset => do
    let array ← okOr value.asArray (.invalid "value and superset policy types")
    refuseIf (¬∃ items ∈ superset.asArray, ∀ item ∈ items, item ∈ array)
      (.invalid "value misses superset policy")
  | none => pure ()

/-- A fixed value agrees with every other operator. -/
def checkValue (operators : Object) : Except ChainError Unit :=
  match operators.lookup "value" with
  | some value => do
    refuseIf (value = .null ∧ operators.contains "default")
      (.invalid "null value and default policy")
    checkValueOneOf operators value
    checkValueAdd operators value
    checkValueSubset operators value
    checkValueSuperset operators value
    refuseIf (value = .null ∧ operators.lookup "essential" = some (.bool true))
      (.invalid "essential value removed")
  | none => pure ()

/-- What is added is allowed. -/
def checkAddInSubset (operators : Object) : Except ChainError Unit :=
  match operators.lookup "add", operators.lookup "subset_of" with
  | some add, some subset => do
    let add ← strings add "add policy"
    let subset ← strings subset "subset_of policy"
    refuseIf (∃ item ∈ add, item ∉ subset) (.invalid "add exceeds subset policy")
  | _, _ => pure ()

/-- The operators of one parameter are well typed and do not contradict each other. -/
def validateOperators (operators : Object) : Except ChainError Unit := do
  forM operators fun e => validateOperand e.1 e.2
  checkOneOfAlone operators
  checkSupersetInSubset operators
  checkValue operators
  checkAddInSubset operators
  refuseIf (operators.lookup "one_of" = some (.arr [])) (.invalid "empty one_of policy")

/-! ### Merging -/

/-- The items of a list, then those of the other that it does not have yet. -/
def union (current items : List Json) : List Json :=
  items.foldl (fun list item => if item ∈ list then list else list ++ [item]) current

/-- The combination of two operands of one operator. -/
def mergeOperator (op : Operator) (current next : Json) : Except ChainError Json :=
  match op with
  | .value | .default => do
    refuseIf (current ≠ next) (.invalid "conflicting policy values")
    pure current
  | .essential => pure (.bool (current.asBool.getD false || next.asBool.getD false))
  | .add | .supersetOf => do
    let current ← okOr current.asArray (.invalid "policy array")
    let next ← okOr next.asArray (.invalid "policy array")
    pure (.arr (union current next))
  | .oneOf | .subsetOf => do
    let next ← okOr next.asArray (.invalid "policy array")
    let current ← okOr current.asArray (.invalid "policy array")
    let kept := current.filter (· ∈ next)
    refuseIf (op = .oneOf ∧ kept = []) (.invalid "empty one_of intersection")
    pure (.arr kept)

/-- One operator of a statement merged into the operators collected for its parameter. -/
def mergeEntry (existing : Object) (entry : String × Json) : Except ChainError Object :=
  match Operator.ofKey entry.1 with
  | none => pure existing
  | some op =>
    match existing.lookup entry.1 with
    | none => pure (existing.insert entry.1 entry.2)
    | some previous => do
      let merged ← mergeOperator op previous entry.2
      pure (existing.insert entry.1 merged)

/-- One parameter of a statement merged into the parameters collected for its entity type. -/
def mergeParameter (target : Object) (entry : String × Json) : Except ChainError Object := do
  let operators ← object entry.2 "metadata parameter policy"
  validateOperators operators
  let existing ←
    okOr ((target.lookup entry.1).getD (.obj [])).asObject (.invalid "metadata parameter policy")
  let existing ← operators.foldlM mergeEntry existing
  validateOperators existing
  pure (target.insert entry.1 (.obj existing))

/-- One entity type of a statement merged into the combined policy. -/
def mergeEntityType (current : Object) (entry : String × Json) : Except ChainError Object := do
  let fields ← object entry.2 "metadata_policy entity type"
  let target ←
    okOr ((current.lookup entry.1).getD (.obj [])).asObject (.invalid "metadata_policy entity type")
  let target ← fields.foldlM mergeParameter target
  pure (current.insert entry.1 (.obj target))

/-- A statement's policy merged into the combined policy. -/
def mergePolicy (current incoming : Object) : Except ChainError Object :=
  incoming.foldlM mergeEntityType current

/-! ### Application -/

/-- A scope string is read as the array of its words. -/
def readParameter (name : String) (value : Option Json) : Option Json :=
  match value with
  | some (.str text) =>
    if name = "scope" then some (.arr ((Text.splitWhitespace text).map .str)) else value
  | _ => value

/-- `value`: the fixed value, or removal. -/
def fixValue (operators : Object) (value : Option Json) : Option Json :=
  match operators.lookup "value" with
  | some fixed => if fixed = .null then none else some fixed
  | none => value

/-- `add`: append the items that are missing. -/
def addItems (operators : Object) (value : Option Json) : Except ChainError (Option Json) :=
  match operators.lookup "add" with
  | some add => do
    let additions ← okOr add.asArray (.invalid "add policy")
    let list ← okOr (value.getD (.arr [])).asArray (.invalid "add target is not an array")
    pure (some (.arr (union list additions)))
  | none => pure value

/-- `default`: the value of a parameter that is absent. -/
def useDefault (operators : Object) (value : Option Json) : Option Json :=
  match value with
  | some value => some value
  | none => operators.lookup "default"

/-- `one_of`: a present value is one of the allowed ones. -/
def checkOneOf (operators : Object) (value : Option Json) : Except ChainError Unit :=
  match operators.lookup "one_of", value with
  | some allowed, some value =>
    refuseIf (¬∃ items ∈ allowed.asArray, value ∈ items) (.invalid "one_of policy violated")
  | _, _ => pure ()

/-- `subset_of`: the items that are not allowed are dropped. -/
def retainSubset (operators : Object) (value : Option Json) : Except ChainError (Option Json) :=
  match operators.lookup "subset_of", value with
  | some allowed, some value => do
    let items ← okOr value.asArray (.invalid "subset target is not an array")
    let allowed ← okOr allowed.asArray (.invalid "subset_of policy")
    pure (some (.arr (items.filter (· ∈ allowed))))
  | _, value => pure value

/-- `superset_of`: a present value has the required items. -/
def checkSuperset (operators : Object) (value : Option Json) : Except ChainError Unit :=
  match operators.lookup "superset_of", value with
  | some required, some value => do
    let items ← okOr value.asArray (.invalid "superset target is not an array")
    refuseIf (¬∃ needed ∈ required.asArray, ∀ item ∈ needed, item ∈ items)
      (.invalid "superset_of policy violated")
  | _, _ => pure ()

/-- The value a parameter has after its operators. -/
def parameterValue (operators : Object) (value : Option Json) :
    Except ChainError (Option Json) := do
  let value ← addItems operators (fixValue operators value)
  let value := useDefault operators value
  checkOneOf operators value
  let value ← retainSubset operators value
  checkSuperset operators value
  refuseIf (value = none ∧ operators.lookup "essential" = some (.bool true))
    (.invalid "essential metadata parameter absent")
  pure value

/-- A scope array is written back as one string. -/
def writeParameter (name : String) (value : Option Json) : Except ChainError (Option Json) :=
  match value with
  | some (.arr items) =>
    if name = "scope" then do
      let words ← items.mapM fun item => okOr item.asStr (.invalid "scope policy value")
      pure (some (.str (Text.join " " words)))
    else pure value
  | _ => pure value

/-- The combined policy of one parameter applied to the metadata of an entity type. -/
def applyParameter (fields : Object) (entry : String × Json) : Except ChainError Object := do
  let operators ← object entry.2 "parameter policy"
  let value ← parameterValue operators (readParameter entry.1 (fields.lookup entry.1))
  let stored ← writeParameter entry.1 value
  pure (match stored with
    | some value => fields.insert entry.1 value
    | none => fields.erase entry.1)

/-- The combined policy of one entity type applied to the metadata. -/
def applyEntityType (metadata : Object) (entry : String × Json) : Except ChainError Object :=
  match metadata.lookup entry.1 with
  | none => pure metadata
  | some fields => do
    let fields ← okOr fields.asObject (.invalid "entity metadata")
    let parameters ← object entry.2 "entity policy"
    let fields ← parameters.foldlM applyParameter fields
    pure (metadata.insert entry.1 (.obj fields))

/-- The combined policy applied to the metadata; entity types the metadata does not have are
skipped. -/
def applyPolicy (policy metadata : Object) : Except ChainError Object :=
  policy.foldlM applyEntityType metadata

/-! ### Constraints -/

/-- A domain, or a domain with a leading dot for everything below it. -/
def validDnsConstraint (pattern : String) : Except ChainError Unit :=
  let host := match pattern.toList with
    | '.' :: rest => rest
    | chars => chars
  refuseIf (host = [] ∨ host.head? = some '.' ∨ host.getLast? = some '.' ∨
      ¬∀ part ∈ host.splitOn '.', part ≠ [] ∧ part.head? ≠ some '-' ∧ part.getLast? ≠ some '-' ∧
      part.all fun c => c.isAlphanum || c = '-')
    (.invalid "naming constraint domain")

/-- Does the host fall under the domain pattern? -/
def dnsMatch (host pattern : String) : Bool :=
  if Text.startsWith '.' pattern then (Text.lower pattern).isSuffixOf (Text.lower host)
  else Text.eqIgnoreCase host pattern

/-- The statements of the chain that may carry a policy, with their positions: all but the leaf's
and the anchor's Entity Configuration. -/
def subordinates (chain : List Statement) : List (Statement × ℕ) :=
  (chain.zipIdx.take (chain.length - 1)).drop 1

/-- The entities below the issuer of statement `index`: the leaf and the intermediates. -/
def entitiesBelow (chain : List Statement) (index : ℕ) : List String :=
  (chain.take 1).map (·.claims.sub) ++ ((chain.take index).drop 1).map (·.claims.iss)

/-- `max_path_length` bounds the number of intermediates below the issuer. -/
def checkPathLength (constraints : Object) (index : ℕ) : Except ChainError Unit :=
  match constraints.lookup "max_path_length" with
  | some maximum => do
    let maximum ← okOr maximum.asU64 (.invalid "max_path_length")
    refuseIf (maximum < index - 1) (.invalid "max_path_length exceeded")
  | none => pure ()

section Resolve

variable (parseUrl : UrlParser)

/-- An entity's host is outside every excluded domain and inside a permitted one. -/
def checkName (permitted : Option (List String)) (excluded : List String) (entity : String) :
    Except ChainError Unit := do
  let url ← okOr (parseUrl entity) (.invalid "subordinate Entity Identifier")
  let host ← okOr url.host (.invalid "subordinate Entity Identifier host")
  refuseIf ((∃ pattern ∈ excluded, dnsMatch host pattern) ∨
      ∃ list ∈ permitted, ¬∃ pattern ∈ list, dnsMatch host pattern)
    (.invalid "naming constraint violated")

/-- The domains of an optional member of the naming constraints. -/
def domainList (names : Object) (key what : String) : Except ChainError (Option (List String)) :=
  match names.lookup key with
  | some value => some <$> strings value what
  | none => pure none

/-- `naming_constraints` hold for every entity below the issuer. -/
def checkNaming (constraints : Object) (index : ℕ) (chain : List Statement) :
    Except ChainError Unit :=
  match constraints.lookup "naming_constraints" with
  | some names => do
    let names ← object names "naming_constraints"
    let permitted ← domainList names "permitted" "permitted names"
    let excluded ← domainList names "excluded" "excluded names"
    forM (permitted.getD [] ++ excluded.getD []) validDnsConstraint
    forM (entitiesBelow chain index) (checkName parseUrl permitted (excluded.getD []))
  | none => pure ()

/-- `allowed_entity_types` drops the other types; `federation_entity` always stays and must not
be listed. -/
def retainTypes (constraints types : Object) : Except ChainError Object :=
  match constraints.lookup "allowed_entity_types" with
  | some allowed => do
    let allowed ← strings allowed "allowed_entity_types"
    refuseIf ("federation_entity" ∈ allowed) (.invalid "federation_entity in allowed_entity_types")
    pure (types.filter fun e => e.1 = "federation_entity" ∨ e.1 ∈ allowed)
  | none => pure types

/-- The constraints of the statement at `index` checked, and the entity types they leave. -/
def applyConstraints (value : Json) (index : ℕ) (chain : List Statement) (types : Object) :
    Except ChainError Object := do
  let constraints ← object value "constraints"
  checkPathLength constraints index
  checkNaming parseUrl constraints index chain
  retainTypes constraints types

/-! ### Resolution -/

/-- The claims that only a subordinate statement may carry. -/
def policyClaims : List String := ["metadata_policy", "metadata_policy_crit", "constraints"]

/-- The two Entity Configurations at the ends of the chain carry no policy claim. -/
def checkConfigurations (chain : List Statement) : Except ChainError Unit :=
  forM chain.zipIdx fun e => refuseIf ((e.2 = 0 ∨ e.2 = chain.length - 1) ∧
      ∃ name ∈ policyClaims, e.1.claims.other.contains name)
    (.invalid "policy claim on Entity Configuration")

/-- One entity type of the superior's metadata written over the leaf's, when the leaf has it. -/
def overrideEntityType (types : Object) (entry : String × Json) : Except ChainError Object :=
  match types.lookup entry.1 with
  | none => pure types
  | some current => do
    let current ← okOr current.asObject (.invalid "entity metadata")
    let fields ← object entry.2 "superior metadata fields"
    let current :=
      fields.foldl (fun (current : Object) field => current.insert field.1 field.2) current
    pure (types.insert entry.1 (.obj current))

/-- The direct superior may override parameters but cannot create entity types. -/
def overrideMetadata (superior : Statement) (types : Object) : Except ChainError Object :=
  match superior.claims.metadata with
  | some metadata => do
    let overrides ← object metadata "superior metadata"
    overrides.foldlM overrideEntityType types
  | none => pure types

/-- The critical operators the subordinate statements name. -/
def criticalOperators (chain : List Statement) : Except ChainError (List String) :=
  (subordinates chain).foldlM (fun critical e =>
    match e.1.claims.other.lookup "metadata_policy_crit" with
    | some list => do
      let names ← strings list "metadata_policy_crit"
      refuseIf (names = []) (.invalid "empty metadata_policy_crit")
      pure (critical ++ names)
    | none => pure critical) []

/-- The policy of a subordinate statement merged into the combined policy. -/
def collectPolicy (combined : Object) (statement : Statement) : Except ChainError Object :=
  match statement.claims.other.lookup "metadata_policy" with
  | some policy => do
    let policy ← object policy "metadata_policy"
    mergePolicy combined policy
  | none => pure combined

/-- The entity types left by the constraints of a subordinate statement. -/
def collectConstraints (chain : List Statement) (types : Object) (e : Statement × ℕ) :
    Except ChainError Object :=
  match e.1.claims.other.lookup "constraints" with
  | some constraints => applyConstraints parseUrl constraints e.2 chain types
  | none => pure types

/-- The constraints and the policy of one subordinate statement. -/
def resolveStep (chain : List Statement) (state : Object × Object) (e : Statement × ℕ) :
    Except ChainError (Object × Object) := do
  let types ← collectConstraints parseUrl chain state.1 e
  let combined ← collectPolicy state.2 e.1
  pure (types, combined)

/-- The leaf's metadata under every superior's overrides, constraints and policy.  A chain has at
least the leaf's configuration, one subordinate statement and the anchor's configuration; the
validator refuses shorter ones before it gets here. -/
def resolve (chain : List Statement) : Except ChainError Json :=
  match chain with
  | leaf :: superior :: _ => do
    checkConfigurations chain
    let metadata ← okOr leaf.claims.metadata (.invalid "leaf metadata is absent")
    let types ← okOr metadata.asObject (.invalid "leaf metadata is not an object")
    let types ← overrideMetadata superior types
    let critical ← criticalOperators chain
    refuseIf (critical ≠ []) (.unsupported "critical metadata policy operator")
    let state ← (subordinates chain).reverse.foldlM (resolveStep parseUrl chain) (types, [])
    let types ← applyPolicy state.2 state.1
    pure (.obj types)
  | _ => .error (.invalid "incomplete or overlong chain")

end Resolve

end AsteriusIdp.Federation
