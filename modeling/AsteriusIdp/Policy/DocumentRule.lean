import AsteriusIdp.Policy.DocumentLeaf

/-!
# Reading and writing conditions and rules

What the reader of a policy document makes of a condition or a rule, and what the encoder writes
for it.

* `valid_of_parseCondition`, `parseCondition_toJson` : a condition that was read is valid and no
  longer when written; what the encoder writes for a valid condition is read back.
* `Rule.Reads.size_le`, `parseRule_toJson` : the same for a rule.
* `named_of_parseRules` : rules that are read back have no empty grant test.
-/

namespace AsteriusIdp.Policy

open Fallible Json Entries

variable {floatSize : ℚ → ℕ}

/-! ### Conditions -/

namespace Condition

mutual

/-- How many levels a condition has. -/
def depth : Condition → ℕ
  | .all children => 1 + depthAll children
  | .any children => 1 + depthAll children
  | .not child => 1 + depth child
  | _ => 1

/-- The depth of a list. -/
def depthAll : List Condition → ℕ
  | [] => 0
  | child :: children => max (depth child) (depthAll children)

end

variable {n : ℕ} {cs : List Condition}

theorem depthAll_le : depthAll cs ≤ n ↔ ∀ c ∈ cs, c.depth ≤ n := by
  induction cs with
  | nil => simp [depthAll]
  | cons child cs ih => simp [depthAll, ih]

variable {c : Condition}

theorem depth_le_succ : c.depth ≤ n + 1 ↔ ∀ child ∈ c.children, child.depth ≤ n := by
  cases c <;> simp [depth, children, depthAll_le, Nat.add_comm 1]

theorem depth_pos (c : Condition) : 1 ≤ c.depth := by
  cases c <;> simp [depth]

/-- A property of every node of a condition. -/
def Every (P : Condition → Prop) (c : Condition) : Prop := ∀ node ∈ c.nodes, P node

variable {P : Condition → Prop}

theorem every_iff : Every P c ↔ P c ∧ ∀ child ∈ c.children, Every P child := by
  simp only [Every, nodes_eq c, List.forall_mem_cons, List.forall_mem_flatMap]

/-- What the reader accepts. -/
abbrev Valid (c : Condition) : Prop := c.Every NodeValid

/-- None of the grant tests is empty. -/
abbrev Named (c : Condition) : Prop := c.Every NodeNamed

/-- The combinations that are written as an array, `all` and `any`. -/
def join (every : Bool) : List Condition → Condition := if every then .all else .any

/-- `all` or `any`. -/
def joinName (every : Bool) : String := if every then "all" else "any"

variable {every : Bool}

theorem children_join : (join every cs).children = cs := by cases every <;> rfl

theorem toJson_join : (join every cs).toJson = .obj [(joinName every, .arr (cs.map toJson))] := by
  rw [← toJsonAll_eq]
  cases every <;> exact toJson.eq_def _

theorem nodeValid_join : (join every cs).NodeValid ∧ (join every cs).NodeNamed := by
  cases every <;> exact ⟨trivial, trivial⟩

theorem shape (c : Condition) :
    c.IsLeaf ∨ (∃ every cs, c = join every cs) ∨ ∃ child, c = .not child := by
  cases c with
  | all cs => exact .inr (.inl ⟨true, cs, rfl⟩)
  | any cs => exact .inr (.inl ⟨false, cs, rfl⟩)
  | not child => exact .inr (.inr ⟨child, rfl⟩)
  | _ => exact .inl trivial

end Condition

open Condition

section Children

variable {parse : String → Json → ℕ → Except DocumentError (Condition × ℕ)} {path : String}
  {index budget budget' : ℕ} {vs : List Json} {cs : List Condition}

/-- The loop reads the children one by one and takes each out of the budget. -/
theorem forall₂_of_parseChildren {R : Condition → Json → Prop}
    (h : parseChildren parse path index vs budget = .ok (cs, budget'))
    (hpar : ∀ path v budget c budget', parse path v budget = .ok (c, budget') →
      R c v ∧ budget = budget' + c.nodes.length) :
    List.Forall₂ R cs vs ∧ budget = budget' + (cs.flatMap Condition.nodes).length := by
  induction vs generalizing index budget cs with
  | nil =>
    obtain ⟨rfl, rfl⟩ := h
    exact ⟨.nil, rfl⟩
  | cons v vs ih =>
    simp only [parseChildren, bind_ok, pure_ok, Prod.exists] at h
    obtain ⟨child, _, hkid, rest, _, hrs, rfl, rfl⟩ := h
    obtain ⟨hR, hbud⟩ := hpar _ _ _ _ _ hkid
    obtain ⟨hRs, hbu⟩ := ih hrs
    refine ⟨.cons hR hRs, ?_⟩
    rw [List.flatMap_cons, List.length_append]
    omega

theorem parseChildren_toJson (hpar : ∀ c ∈ cs, ∀ path budget,
      parse path c.toJson (budget + c.nodes.length) = .ok (c, budget)) :
    parseChildren parse path index (cs.map Condition.toJson)
      (budget + (cs.flatMap Condition.nodes).length) = .ok (cs, budget) := by
  induction cs generalizing index with
  | nil => rfl
  | cons child cs ih =>
    obtain ⟨hkid, hrs⟩ := List.forall_mem_cons.1 hpar
    have hsum : budget + ((child :: cs).flatMap Condition.nodes).length =
        budget + (cs.flatMap Condition.nodes).length + child.nodes.length := by
      rw [List.flatMap_cons, List.length_append]
      omega
    rw [List.map_cons, parseChildren, hsum, hkid]
    simp only [bind_ok, pure_ok, Prod.exists, Prod.mk.injEq]
    exact ⟨child, _, rfl, cs, budget, ih hrs, rfl, rfl⟩

theorem exists_parse_of_parseChildren {result : List Condition × ℕ}
    (h : parseChildren parse path index (cs.map Condition.toJson) budget = .ok result) :
    ∀ c ∈ cs, ∃ path budget result, parse path c.toJson budget = .ok result := by
  induction cs generalizing index budget result with
  | nil => simp
  | cons child cs ih =>
    simp only [List.map_cons, parseChildren, bind_ok, Prod.exists] at h
    obtain ⟨_, _, hkid, _, _, hrs, -⟩ := h
    exact List.forall_mem_cons.2 ⟨⟨_, _, _, hkid⟩, ih hrs⟩

end Children

variable {levels max : ℕ} {v : Json} {result : Condition × ℕ} {c : Condition}
  {items es : List Json} {object : Object} {member : String} {texts seen : List String}
  {rule : Rule} {rules : List Rule} {budget budget' index : ℕ} {path name raw : String}

/-- Reading takes a level and a unit of the budget. -/
theorem succ_of_parseCondition (h : parseCondition levels path v budget = .ok result) :
    ∃ levels' budget', levels = levels' + 1 ∧ budget = budget' + 1 := by
  cases levels with
  | zero => cases h
  | succ levels =>
    cases budget with
    | zero => cases h
    | succ budget => exact ⟨levels, budget, rfl, rfl⟩

/-- How a condition was read: as one of the three combinations, or as a leaf. -/
theorem parseCondition_cases
    (h : parseCondition (levels + 1) path v (budget + 1) = .ok (c, budget')) :
    (∃ every path items cs, v = .obj [(joinName every, .arr items)] ∧
        c = join every cs ∧
        parseChildren (parseCondition levels) path 0 items budget = .ok (cs, budget')) ∨
      (∃ body child, v = .obj [("not", body)] ∧ c = .not child ∧
        parseCondition levels (path ++ ".not") body budget = .ok (child, budget')) ∨
      ∃ name body, v = .obj [(name, body)] ∧ parseLeaf path name body = .ok c ∧
      budget' = budget := by
  simp only [parseCondition, bind_ok, okOr_ok, asObject_eq_some] at h
  obtain ⟨object, rfl, h⟩ := h
  split at h
  · rename_i name body
    split at h
    all_goals simp only [bind_ok, okOr_ok, asArray_eq_some, pure_ok, Prod.exists,
      Prod.mk.injEq] at h
    · obtain ⟨items, rfl, cs, _, hkd, rfl, rfl⟩ := h
      exact .inl ⟨true, _, items, cs, rfl, rfl, hkd⟩
    · obtain ⟨items, rfl, cs, _, hkd, rfl, rfl⟩ := h
      exact .inl ⟨false, _, items, cs, rfl, rfl, hkd⟩
    · obtain ⟨child, _, hkid, rfl, rfl⟩ := h
      exact .inr (.inl ⟨body, child, rfl, rfl, hkid⟩)
    · obtain ⟨leaf, hlf, rfl, rfl⟩ := h
      exact .inr (.inr ⟨_, body, rfl, hlf, rfl⟩)
  · cases h

/-- A leaf is read by `parseLeaf`. -/
theorem parseCondition_leaf {body : Json} (h : name ∉ combinators) :
    parseCondition (levels + 1) path (.obj [(name, body)]) (budget + 1) =
      (do let leaf ← parseLeaf path name body; pure (leaf, budget)) := by
  simp only [parseCondition, Json.asObject, okOr, bind, Except.bind]
  split
  · simp [combinators] at h
  · simp [combinators] at h
  · simp [combinators] at h
  · rfl

theorem parseCondition_join {every : Bool} :
    parseCondition (levels + 1) path (.obj [(joinName every, .arr items)]) (budget + 1) =
        .ok result ↔
      ∃ cs budget', parseChildren (parseCondition levels) (path ++ ("." ++ joinName every)) 0
        items budget = .ok (cs, budget') ∧ (join every cs, budget') = result := by
  cases every <;> simp [parseCondition, Json.asArray, joinName, join]

theorem parseCondition_not {body : Json} :
    parseCondition (levels + 1) path (.obj [("not", body)]) (budget + 1) = .ok result ↔
      ∃ child budget', parseCondition levels (path ++ ".not") body budget = .ok (child, budget') ∧
      (.not child, budget') = result := by
  simp [parseCondition]

/-- A combination is no longer when its parts are no longer. -/
theorem size_member_le {w : Json} (h : v.byteSize floatSize ≤ w.byteSize floatSize) :
    (Json.obj [(name, v)]).byteSize floatSize ≤ (Json.obj [(name, w)]).byteSize floatSize := by
  simp only [byteSize, membersSize, List.length_singleton]
  omega

/-- What is known of the children one by one. -/
theorem children_of_forall₂ {cs : List Condition}
    (h : List.Forall₂ (fun c v => c.Valid ∧ c.depth ≤ levels ∧
      c.toJson.byteSize floatSize ≤ v.byteSize floatSize) cs items) :
    (∀ c ∈ cs, c.Valid) ∧ (∀ c ∈ cs, c.depth ≤ levels) ∧
      (Json.arr (cs.map Condition.toJson)).byteSize floatSize ≤
        (Json.arr items).byteSize floatSize := by
  have hea : ∀ c ∈ cs, c.Valid ∧ c.depth ≤ levels := by
    intro c hc
    obtain ⟨_, -, hok, hdep, -⟩ := exists_of_mem_forall₂ h.flip hc
    exact ⟨hok, hdep⟩
  refine ⟨fun c hc => (hea c hc).1, fun c hc => (hea c hc).2, byteSize_arr_le ?_⟩
  exact List.forall₂_map_left_iff.2 (h.imp fun _ _ hcv => hcv.2.2)

/-- **What the reader makes of a condition** is valid, within the levels, has a node for each unit
of the budget that was spent, and is no longer when it is written. -/
theorem valid_of_parseCondition (h : parseCondition levels path v budget = .ok (c, budget')) :
    (c.Valid ∧ c.depth ≤ levels ∧ c.toJson.byteSize floatSize ≤ v.byteSize floatSize) ∧
      budget = budget' + c.nodes.length := by
  induction levels generalizing budget budget' path v c with
  | zero => cases h
  | succ levels ih =>
    cases budget with
    | zero => cases h
    | succ =>
      rw [nodes_eq, List.length_cons]
      rcases parseCondition_cases h with ⟨every, _, items, cs, rfl, rfl, hkd⟩ |
        ⟨body, child, rfl, rfl, hkid⟩ | ⟨name, body, rfl, hlf, rfl⟩
      · obtain ⟨hall, hbu⟩ :=
          forall₂_of_parseChildren hkd fun _ _ _ _ _ hpar => ih hpar
        obtain ⟨hok, hdep, hsz⟩ := children_of_forall₂ hall
        rw [Condition.Valid, every_iff, depth_le_succ, children_join, toJson_join]
        exact ⟨⟨⟨nodeValid_join.1, hok⟩, hdep, size_member_le hsz⟩, by omega⟩
      · obtain ⟨⟨hok, hdep, hsz⟩, hbu⟩ := ih hkid
        rw [Condition.Valid, every_iff, depth_le_succ, Condition.toJson, children,
          List.flatMap_singleton, List.forall_mem_singleton, List.forall_mem_singleton]
        exact ⟨⟨⟨trivial, hok⟩, hdep, size_member_le hsz⟩, by omega⟩
      · obtain ⟨hisL, hok, hnm, hsz⟩ := valid_of_parseLeaf hlf
        rw [Condition.Valid, every_iff, depth_le_succ, hisL.children_eq,
          toJson_of_isLeaf hisL, ← hnm]
        exact ⟨⟨⟨hok, by simp⟩, by simp, size_member_le hsz⟩, rfl⟩

/-- **What the encoder writes for a condition is read back**: it is valid, none of its grant tests
is empty, and it fits the levels. -/
theorem parseCondition_toJson (hok : c.Valid) (hnm : c.Named) (hdep : c.depth ≤ levels)
    (path : String) (budget : ℕ) :
    parseCondition levels path c.toJson (budget + c.nodes.length) = .ok (c, budget) := by
  induction c using tree_induction generalizing levels path budget with
  | node c ih =>
    obtain ⟨_, rfl⟩ := Nat.exists_eq_add_of_le' ((depth_pos _).trans hdep)
    obtain ⟨hok, hval⟩ := every_iff.1 hok
    obtain ⟨hnm, hnam⟩ := every_iff.1 hnm
    have hkd := fun child hkid => ih child hkid (hval child hkid)
      (hnam child hkid) (depth_le_succ.1 hdep child hkid)
    rw [nodes_eq, List.length_cons, ← Nat.add_assoc]
    rcases c.shape with hlf | ⟨_, cs, rfl⟩ | ⟨child, rfl⟩
    · rw [toJson_of_isLeaf hlf, hlf.children_eq,
        parseCondition_leaf (leafMember_not_combinator hlf),
        parseLeaf_leafMember hlf hok hnm]
      rfl
    · rw [children_join] at hkd ⊢
      rw [toJson_join, parseCondition_join]
      exact ⟨cs, budget, parseChildren_toJson hkd, rfl⟩
    · rw [Condition.toJson, children, List.flatMap_singleton, parseCondition_not]
      exact ⟨child, budget, hkd child List.mem_cons_self _ budget, rfl⟩

/-- An encoding that is read back has no empty grant test. -/
theorem named_of_parseCondition
    (h : parseCondition levels path c.toJson budget = .ok result) : c.Named := by
  induction c using tree_induction generalizing levels path budget result with
  | node c ih =>
    obtain ⟨levels, budget, rfl, rfl⟩ := succ_of_parseCondition h
    rw [Condition.Named, every_iff]
    rcases c.shape with hlf | ⟨every, cs, rfl⟩ | ⟨child, rfl⟩
    · rw [toJson_of_isLeaf hlf, parseCondition_leaf (leafMember_not_combinator hlf)] at h
      simp only [bind_ok] at h
      obtain ⟨c', hlf', -⟩ := h
      exact ⟨nodeNamed_of_parseLeaf hlf', by simp [hlf.children_eq]⟩
    · rw [toJson_join, parseCondition_join] at h
      obtain ⟨_, _, hkd, -⟩ := h
      rw [children_join] at ih ⊢
      refine ⟨nodeValid_join.2, fun c hc => ?_⟩
      obtain ⟨_, _, _, hc'⟩ := exists_parse_of_parseChildren hkd c hc
      exact ih c hc hc'
    · rw [Condition.toJson, parseCondition_not] at h
      obtain ⟨_, _, hkid, -⟩ := h
      exact ⟨trivial, List.forall_mem_singleton.2 (ih child List.mem_cons_self hkid)⟩

/-! ### Rules -/

/-- A rule identifier. -/
def IsRuleId (raw : String) : Prop :=
  raw ≠ "" ∧ raw.utf8ByteSize ≤ maxString ∧
    (raw.toList.any fun c => isControl c || Text.isWhitespace c) = false

theorem PolicyRuleId.parse_ok {id : String} :
    PolicyRuleId.parse path raw = .ok id ↔ raw = id ∧ IsRuleId id := by
  simp only [PolicyRuleId.parse, bind_ok, refuseIf_ok, pure_ok, IsRuleId]
  grind

theorem Effect.parse_eq_some {effect : Effect} :
    Effect.parse raw = some effect ↔ effect.asStr = raw := by
  refine ⟨fun h => by simpa using List.find?_some h, ?_⟩
  rintro rfl
  cases effect <;> decide

/-- A member that is left out or null, or an array of at most `max` texts. -/
def ReadsTexts (max : ℕ) (object : Object) (member : String) (texts : List String) : Prop :=
  (texts = [] ∧ (object.lookup member = none ∨ object.lookup member = some .null)) ∨
    object.lookup member = some (jsonStrings texts) ∧ texts.length ≤ max ∧
    ∀ s ∈ texts, isText maxString s = true

theorem ReadsTexts.of_lookup (h : object.lookup member = nonemptyStrings texts)
    (hlen : texts.length ≤ max) (htxt : ∀ s ∈ texts, isText maxString s = true) :
    ReadsTexts max object member texts := by
  unfold nonemptyStrings at h
  split_ifs at h with hemp
  · exact .inl ⟨hemp, .inl h⟩
  · exact .inr ⟨h, hlen, htxt⟩

theorem parseAcrValues_ok :
    parseAcrValues object path = .ok texts ↔ ReadsTexts maxAcrHints object "acr_values" texts := by
  unfold parseAcrValues ReadsTexts
  rcases object.lookup "acr_values" with _ | _ | _ | _ | _ | items | _
  case some.arr =>
    simp only [bind_ok, refuseIf_ok, boundedStrings_ok, jsonStrings]
    grind
  all_goals simp [jsonStrings]

theorem parseActions_ok {actions : Finset String} :
    parseActions object path = .ok actions ↔
      ∃ texts, ReadsTexts maxActions object "actions" texts ∧ actions = texts.toFinset := by
  unfold parseActions ReadsTexts
  rcases object.lookup "actions" with _ | _ | _ | _ | _ | items | _
  case some.arr =>
    simp only [bind_ok, map_ok, refuseIf_ok, boundedStrings_ok, exists_const, jsonStrings]
    grind
  all_goals simp [jsonStrings, @eq_comm _ actions]

/-- The condition of a rule and the member it was read from. -/
def ReadsWhen (object : Object) : Option Condition → Prop
  | none => object.lookup "when" = none ∨ object.lookup "when" = some .null
  | some c => ∃ v path budget, object.lookup "when" = some v ∧
      parseCondition maxDepth path v maxConditions = .ok (c, budget)

theorem readsWhen_of_parseWhen {when : Option Condition}
    (h : parseWhen object path = .ok when) : ReadsWhen object when := by
  unfold parseWhen at h
  split at h
  · rename_i hno
    cases h
    exact .inl hno
  · rename_i hnu
    cases h
    exact .inr hnu
  · rename_i v hnu hv
    simp only [map_ok, Prod.exists] at h
    obtain ⟨c, budget, hpar, rfl⟩ := h
    exact ⟨v, _, budget, hv, hpar⟩

/-- The members a rule was read from. -/
structure Rule.Reads (object : Object) (rule : Rule) : Prop where
  id : object.lookup "id" = some (.str rule.id)
  isRuleId : IsRuleId rule.id
  effect : object.lookup "effect" = some (.str rule.effect.asStr)
  subjectType : ReadsText maxString object "subject_type" rule.subjectType
  resourceType : ReadsText maxString object "resource_type" rule.resourceType
  actions : ∃ texts, ReadsTexts maxActions object "actions" texts ∧ rule.actions = texts.toFinset
  when : ReadsWhen object rule.when
  reasonAdmin : ReadsText maxReason object "reason_admin" rule.reasonAdmin
  reasonUser : ReadsText maxReason object "reason_user" rule.reasonUser
  acrValues : ReadsTexts maxAcrHints object "acr_values" rule.acrValues

theorem reads_of_parseRule (h : parseRule index v = .ok rule) :
    ∃ object, v = .obj object ∧ rule.Reads object := by
  simp only [parseRule, bind_ok, okOr_ok, asObject_eq_some, Option.bind_eq_some_iff,
    asStr_eq_some, PolicyRuleId.parse_ok, optionalString_ok, optionalReason_ok,
    parseActions_ok, parseAcrValues_ok, pure_ok] at h
  obtain ⟨object, rfl, _, ⟨_, hid, rfl⟩, id, ⟨rfl, hrl⟩, effect, ⟨_, ⟨_, heff, rfl⟩,
    hpar⟩, subjectType, hsj, resourceType, hres, actions, hac, when, hwn,
    reasonAdmin, hadm, reasonUser, hu, acrValues, hacr, rfl⟩ := h
  exact ⟨object, rfl,
    { id := hid
      isRuleId := hrl
      effect := Effect.parse_eq_some.1 hpar ▸ heff
      subjectType := hsj
      resourceType := hres
      actions := hac
      when := readsWhen_of_parseWhen hwn
      reasonAdmin := hadm
      reasonUser := hu
      acrValues := hacr }⟩

/-- What the reader accepts. -/
structure Rule.Valid (rule : Rule) : Prop where
  isRuleId : IsRuleId rule.id
  subjectType : ∀ s ∈ rule.subjectType, isText maxString s = true
  resourceType : ∀ s ∈ rule.resourceType, isText maxString s = true
  actions : rule.actions.card ≤ maxActions ∧ ∀ s ∈ rule.actions, isText maxString s = true
  when : ∀ c ∈ rule.when, c.Valid ∧ c.depth ≤ maxDepth ∧ c.nodes.length ≤ maxConditions
  reasonAdmin : ∀ s ∈ rule.reasonAdmin, isText maxReason s = true
  reasonUser : ∀ s ∈ rule.reasonUser, isText maxReason s = true
  acrValues : rule.acrValues.length ≤ maxAcrHints ∧ ∀ s ∈ rule.acrValues, isText maxString s = true

/-- None of the grant tests is empty. -/
def Rule.Named (rule : Rule) : Prop := ∀ c ∈ rule.when, c.Named

theorem ReadsTexts.valid (h : ReadsTexts max object member texts) :
    texts.length ≤ max ∧ ∀ s ∈ texts, isText maxString s = true := by
  rcases h with ⟨rfl, -⟩ | ⟨-, hlen, htxt⟩
  · exact ⟨Nat.zero_le _, by simp⟩
  · exact ⟨hlen, htxt⟩

theorem Rule.Reads.valid (h : rule.Reads object) : rule.Valid where
  isRuleId := h.isRuleId
  subjectType := h.subjectType.isText
  resourceType := h.resourceType.isText
  actions := by
    obtain ⟨texts, hrd, hac⟩ := h.actions
    obtain ⟨hlen, htxt⟩ := hrd.valid
    rw [hac]
    exact ⟨(List.toFinset_card_le texts).trans hlen, fun s hs =>
      htxt s (List.mem_toFinset.1 hs)⟩
  when := by
    intro c hc
    have hwn := h.when
    rw [hc] at hwn
    obtain ⟨v, path, budget, -, hpar⟩ := hwn
    obtain ⟨⟨hok, hdep, -⟩, hbu⟩ :=
      @valid_of_parseCondition (fun _ => 0) _ _ _ _ _ _ hpar
    exact ⟨hok, hdep, by omega⟩
  reasonAdmin := h.reasonAdmin.isText
  reasonUser := h.reasonUser.isText
  acrValues := h.acrValues.valid

theorem Rule.nodup_fields (rule : Rule) : (rule.fields.map Prod.fst).Nodup := by
  simp [Rule.fields]

/-- A condition is written as an object. -/
theorem Condition.exists_toJson (c : Condition) : ∃ ms, c.toJson = .obj ms := by
  cases c <;> exact ⟨_, by rw [Condition.toJson]⟩

theorem byteSize_jsonStrings (texts : List String) :
    (jsonStrings texts).byteSize floatSize = 2 + (texts.map textSize).sum + (texts.length - 1) := by
  have hit : itemsSize floatSize (texts.map .str) = (texts.map textSize).sum := by
    induction texts with
    | nil => rfl
    | cons s texts ih => rw [List.map_cons, itemsSize, ih, List.map_cons, List.sum_cons, byteSize]
  rw [jsonStrings, byteSize, hit, List.length_map]

variable {l : List String}

/-- Texts without repetitions are no longer than a list that has them all. -/
theorem size_jsonStrings_le (hl : l.Nodup) (h : l ⊆ texts) :
    (jsonStrings l).byteSize floatSize ≤ (jsonStrings texts).byteSize floatSize := by
  have hdom := sum_le_of_dominated (f := fun e : String × Unit => textSize e.1)
    (m := l.map (·, ())) (l := texts.map (·, ()))
    (List.pairwise_map.2 hl) (by
      simp only [List.mem_map]
      rintro e ⟨s, hs, rfl⟩
      exact ⟨(s, ()), ⟨s, h hs, rfl⟩, rfl, le_rfl⟩)
  have hsh : (l.map textSize).sum ≤ (texts.map textSize).sum ∧ l.length ≤ texts.length := by
    simpa [Function.comp_def] using hdom
  rw [byteSize_jsonStrings, byteSize_jsonStrings]
  omega

theorem ReadsTexts.size_le (h : ReadsTexts max object member texts)
    (hl : l.Nodup ∧ l ⊆ texts ∨ l = texts) (hv : nonemptyStrings l = some v) :
    ∃ w, object.lookup member = some w ∧ v.byteSize floatSize ≤ w.byteSize floatSize := by
  unfold nonemptyStrings at hv
  split_ifs at hv with hemp
  cases hv
  rcases h with ⟨rfl, -⟩ | ⟨hlk, -, -⟩
  · rcases hl with ⟨-, hsub⟩ | rfl
    · exact absurd (List.subset_nil.1 hsub) hemp
    · exact absurd rfl hemp
  · refine ⟨_, hlk, ?_⟩
    rcases hl with ⟨hnod, hsub⟩ | rfl
    · exact size_jsonStrings_le hnod hsub
    · exact le_rfl

theorem Rule.Reads.size_le (h : rule.Reads object) :
    rule.toJson.byteSize floatSize ≤ (Json.obj object).byteSize floatSize := by
  refine byteSize_record_le rule.nodup_fields ?_
  refine ⟨?_, ?_, fun _ => h.subjectType.size_le, fun _ => h.resourceType.size_le, fun _ => ?_, ?_,
    fun _ => h.reasonAdmin.size_le, fun _ => h.reasonUser.size_le,
    fun _ => h.acrValues.size_le (.inr rfl)⟩
  · rintro _ ⟨⟩
    exact ⟨_, h.id, le_rfl⟩
  · rintro _ ⟨⟩
    exact ⟨_, h.effect, le_rfl⟩
  · obtain ⟨_, hrd, hac⟩ := h.actions
    refine hrd.size_le (.inl ⟨Finset.sort_nodup _ _, fun s hs => ?_⟩)
    rw [hac, Finset.mem_sort, List.mem_toFinset] at hs
    exact hs
  · have hrd := h.when
    cases hwn : rule.when with
    | none => exact nofun
    | some =>
      rintro _ ⟨⟩
      rw [hwn] at hrd
      obtain ⟨w, _, _, hlk, hpar⟩ := hrd
      exact ⟨w, hlk, (valid_of_parseCondition hpar).1.2.2⟩

/-- **What the encoder writes for a rule is read back.** -/
theorem parseRule_toJson (h : rule.Valid) (hnm : rule.Named) (index : ℕ) :
    parseRule index rule.toJson = .ok rule := by
  obtain ⟨hid, heff, hsj, hres, hac, hmem, hadm, hu, hacr⟩ :=
    forall_lookup_recordMembers rule.nodup_fields
  have hac : ReadsTexts maxActions (recordMembers rule.fields) "actions" rule.actions.sort :=
    .of_lookup hac (by rw [Finset.length_sort]; exact h.actions.1)
      fun s hs => h.actions.2 s (Finset.mem_sort _ |>.1 hs)
  have hwn : ∀ path, parseWhen (recordMembers rule.fields) path = .ok rule.when := by
    intro path
    cases hw : rule.when with
    | none => rw [parseWhen, hmem, hw]; rfl
    | some c =>
      obtain ⟨hok, hdep, hcnt⟩ := h.when c hw
      have hpar := parseCondition_toJson hok (hnm c hw) hdep (path ++ ".when")
        (maxConditions - c.nodes.length)
      obtain ⟨_, hobj⟩ := c.exists_toJson
      rw [Nat.sub_add_cancel hcnt, hobj] at hpar
      simp only [parseWhen, hmem, hw, Option.map_some, hobj, hpar]
      rfl
  simp only [parseRule, bind_ok, okOr_ok, asObject_eq_some, Option.bind_eq_some_iff,
    asStr_eq_some, PolicyRuleId.parse_ok, optionalString_ok, optionalReason_ok,
    parseActions_ok, parseAcrValues_ok, pure_ok]
  exact ⟨recordMembers rule.fields, rfl, rule.id, ⟨_, hid, rfl⟩, rule.id, ⟨rfl, h.isRuleId⟩,
    rule.effect, ⟨_, ⟨_, heff, rfl⟩, Effect.parse_eq_some.2 rfl⟩, rule.subjectType,
    .of_lookup hsj h.subjectType, rule.resourceType, .of_lookup hres h.resourceType,
    rule.actions, ⟨_, hac, (Finset.sort_toFinset _ _).symm⟩, rule.when, hwn _,
    rule.reasonAdmin, .of_lookup hadm h.reasonAdmin, rule.reasonUser,
    .of_lookup hu h.reasonUser, rule.acrValues,
    .of_lookup hacr h.acrValues.1 h.acrValues.2, rfl⟩

theorem named_of_parseRule {rule' : Rule} (h : parseRule index rule.toJson = .ok rule') :
    rule.Named := by
  obtain ⟨_, hob, hrd⟩ := reads_of_parseRule h
  cases hob
  intro c hc
  obtain ⟨-, -, -, -, -, hmem, -⟩ := forall_lookup_recordMembers rule.nodup_fields
  rw [Option.mem_def.1 hc, Option.map_some] at hmem
  have hwn := hrd.when
  cases hw : rule'.when with
  | none =>
    obtain ⟨_, hobj⟩ := c.exists_toJson
    rw [hw, ReadsWhen, hmem, hobj] at hwn
    simp at hwn
  | some =>
    rw [hw] at hwn
    obtain ⟨_, _, _, hlk, hpar⟩ := hwn
    cases hmem.symm.trans hlk
    exact named_of_parseCondition hpar

/-- What the loop over the rules leaves: rules with distinct identifiers that were not seen before,
each of them valid and no longer when it is written. -/
theorem rules_of_parseRules (h : parseRules index es seen = .ok rules) :
    List.Forall₂ (fun rule v => rule.Valid ∧
        rule.toJson.byteSize floatSize ≤ v.byteSize floatSize) rules es ∧
      (rules.map Rule.id).Nodup ∧ ∀ rule ∈ rules, rule.id ∉ seen := by
  induction es generalizing index seen rules with
  | nil =>
    cases h
    exact ⟨.nil, List.nodup_nil, by simp⟩
  | cons entry es ih =>
    simp only [parseRules, bind_ok, refuseIf_ok, pure_ok, exists_const] at h
    obtain ⟨_, hrl, hfr, _, hrs, rfl⟩ := h
    obtain ⟨_, rfl, hrd⟩ := reads_of_parseRule hrl
    obtain ⟨hall, hnod, hsn⟩ := ih hrs
    refine ⟨.cons ⟨hrd.valid, hrd.size_le⟩ hall, ?_, ?_⟩
    · rw [List.map_cons, List.nodup_cons]
      refine ⟨fun hmem => ?_, hnod⟩
      obtain ⟨rule', hrl', hid⟩ := List.mem_map.1 hmem
      exact hsn rule' hrl' (hid ▸ List.mem_cons_self)
    · intro rule' hrl'
      rcases List.mem_cons.1 hrl' with rfl | hrl'
      · exact hfr
      · exact fun hmem => hsn rule' hrl' (List.mem_cons_of_mem _ hmem)

theorem parseRules_toJson (hok : ∀ rule ∈ rules, rule.Valid) (hnm : ∀ rule ∈ rules, rule.Named)
    (hnod : (rules.map Rule.id).Nodup) (hsn : ∀ rule ∈ rules, rule.id ∉ seen) :
    parseRules index (rules.map Rule.toJson) seen = .ok rules := by
  induction rules generalizing index seen with
  | nil => rfl
  | cons rule rules ih =>
    rw [List.map_cons, List.nodup_cons] at hnod
    obtain ⟨hfr, hnod⟩ := hnod
    obtain ⟨hok₁, hok⟩ := List.forall_mem_cons.1 hok
    obtain ⟨hnm₁, hnm⟩ := List.forall_mem_cons.1 hnm
    obtain ⟨hsn₁, hsn⟩ := List.forall_mem_cons.1 hsn
    simp only [List.map_cons, parseRules, bind_ok, refuseIf_ok, exists_const]
    refine ⟨rule, parseRule_toJson hok₁ hnm₁ index, hsn₁, rules,
      ih hok hnm hnod fun rule' hrl' hmem => ?_, rfl⟩
    rcases List.mem_cons.1 hmem with hid | hmem
    · exact hfr (hid ▸ List.mem_map_of_mem hrl')
    · exact hsn rule' hrl' hmem

theorem named_of_parseRules {rules' : List Rule}
    (h : parseRules index (rules.map Rule.toJson) seen = .ok rules') :
    ∀ rule ∈ rules, rule.Named := by
  induction rules generalizing index seen rules' with
  | nil => simp
  | cons rule rules ih =>
    simp only [List.map_cons, parseRules, bind_ok] at h
    obtain ⟨_, hrl, -, -, _, hrs, -⟩ := h
    exact List.forall_mem_cons.2 ⟨named_of_parseRule hrl, ih hrs⟩

/-! ### The head of a document -/

/-- The rules of a document as they are read and written. -/
structure RulesValid (rules : List Rule) : Prop where
  valid : ∀ rule ∈ rules, rule.Valid
  nodup : (rules.map Rule.id).Nodup
  length_le : rules.length ≤ maxRules

theorem parseVersion_ok {u : Unit} :
    parseVersion object = .ok u ↔ object.lookup "version" = some (.num (.posInt 1)) := by
  have hone (k : UInt64) : k.toNat = 1 ↔ k = 1 := by
    rw [← UInt64.toNat_inj, UInt64.toNat_one]
  unfold parseVersion
  rcases object.lookup "version" with _ | _ | _ | n | _ | _ | _
  all_goals simp [hone]

theorem parseHead_ok {doc : Json} :
    parseHead floatSize doc = .ok (object, rules) ↔
      doc.byteSize floatSize ≤ maxDocumentBytes ∧ doc = .obj object ∧
      object.lookup "version" = some (.num (.posInt 1)) ∧
      ∃ es, object.lookup "rules" = some (.arr es) ∧ es.length ≤ maxRules ∧
      parseRules 0 es [] = .ok rules := by
  simp [parseHead, parseVersion_ok, Option.bind_eq_some_iff]

theorem rulesValid_of_parseRules (h : parseRules 0 es [] = .ok rules)
    (hlen : es.length ≤ maxRules) : RulesValid rules := by
  obtain ⟨hall, hnod, -⟩ := @rules_of_parseRules (fun _ => 0) _ _ _ _ h
  refine ⟨fun rule hrl => ?_, hnod, hall.length_eq ▸ hlen⟩
  obtain ⟨_, -, hok, -⟩ := exists_of_mem_forall₂ hall.flip hrl
  exact hok

theorem size_rulesJson_le (h : parseRules index es seen = .ok rules) :
    (rulesJson rules).byteSize floatSize ≤ (Json.arr es).byteSize floatSize := by
  obtain ⟨hall, -, -⟩ := @rules_of_parseRules floatSize _ _ _ _ h
  exact byteSize_arr_le (List.forall₂_map_left_iff.2 (hall.imp fun _ _ hrl => hrl.2))

theorem RulesValid.parseRules_toJson (h : RulesValid rules) (hnm : ∀ rule ∈ rules, rule.Named) :
    parseRules 0 (rules.map Rule.toJson) [] = .ok rules :=
  Policy.parseRules_toJson h.valid hnm h.nodup (by simp)

end AsteriusIdp.Policy
