import AsteriusIdp.Json

/-!
# JSON documents and their texts

What a reader of a document measures before it looks at the meaning: how deep the document nests
(`Json.depth`) and whether it uses a member name that the encoder keeps for itself
(`Json.namesASerdeJsonSentinel`).

The encoder and the decoder are not modelled: `Serde` is any pair of them that agrees on the
documents the decoder is known to read back, those whose objects are ordered maps, that use no
reserved name and that stay under the decoder's own limit on nesting. Of a document's doubles this
assumes that they are read exactly, as `float_roundtrip` makes the decoder do.
-/

namespace AsteriusIdp

open Entries

/-! ### Reserved member names -/

/-- The member names `serde_json` uses for its own types. -/
def serdeJsonSentinels : List String :=
  ["$serde_json::private::RawValue", "$serde_json::private::Number"]

/-- The sentinel a name is, if it is one. -/
def serdeJsonSentinel (name : String) : Option String := serdeJsonSentinels.find? (· = name)

/-- A name that `serde_json` reserves. -/
def isSerdeJsonSentinel (name : String) : Bool := (serdeJsonSentinel name).isSome

theorem isSerdeJsonSentinel_iff {name : String} :
    isSerdeJsonSentinel name = true ↔ name ∈ serdeJsonSentinels := by
  simp [isSerdeJsonSentinel, serdeJsonSentinel]

namespace Json

mutual

/-- How deep a value nests, counting itself as one. -/
def depth : Json → ℕ
  | arr items => 1 + depthItems items
  | obj members => 1 + depthMembers members
  | null | bool _ | num _ | str _ => 1

/-- The depth of the deepest item. -/
def depthItems : List Json → ℕ
  | [] => 0
  | v :: vs => max (depth v) (depthItems vs)

/-- The depth of the deepest member. -/
def depthMembers : List (String × Json) → ℕ
  | [] => 0
  | (_, v) :: ms => max (depth v) (depthMembers ms)

end

mutual

/-- Some object of the value has a reserved member name. -/
def namesASerdeJsonSentinel : Json → Bool
  | arr items => itemsNameASentinel items
  | obj members => membersNameASentinel members
  | null | bool _ | num _ | str _ => false

/-- Some item has a reserved member name in it. -/
def itemsNameASentinel : List Json → Bool
  | [] => false
  | v :: vs => namesASerdeJsonSentinel v || itemsNameASentinel vs

/-- Some member has a reserved name or one in its value. -/
def membersNameASentinel : List (String × Json) → Bool
  | [] => false
  | (name, v) :: ms =>
    (isSerdeJsonSentinel name || namesASerdeJsonSentinel v) || membersNameASentinel ms

end

/-- The objects of the value are ordered maps. -/
inductive WellFormed : Json → Prop where
  | null : WellFormed null
  | bool (b : Bool) : WellFormed (bool b)
  | num (n : Number) : WellFormed (num n)
  | str (s : String) : WellFormed (str s)
  | arr {items : List Json} (h : ∀ v ∈ items, WellFormed v) : WellFormed (arr items)
  | obj {members : Object} (hsorted : Entries.Sorted members)
      (h : ∀ m ∈ members, WellFormed m.2) : WellFormed (obj members)

/-! ### What the members of a value inherit -/

variable {items : List Json} {n : ℕ} {members : Object} {v : Json}

theorem depthItems_le : depthItems items ≤ n ↔ ∀ v ∈ items, v.depth ≤ n := by
  induction items with
  | nil => simp [depthItems]
  | cons v vs ih => simp [depthItems, ih]

theorem depthMembers_le : depthMembers members ≤ n ↔ ∀ m ∈ members, m.2.depth ≤ n := by
  induction members with
  | nil => simp [depthMembers]
  | cons m ms ih => simp [depthMembers, ih]

theorem depth_arr_le : (arr items).depth ≤ n + 1 ↔ ∀ v ∈ items, v.depth ≤ n := by
  rw [depth, Nat.add_comm, Nat.add_le_add_iff_right, depthItems_le]

theorem depth_obj_le : (obj members).depth ≤ n + 1 ↔ ∀ m ∈ members, m.2.depth ≤ n := by
  rw [depth, Nat.add_comm, Nat.add_le_add_iff_right, depthMembers_le]

theorem namesASerdeJsonSentinel_arr :
    (arr items).namesASerdeJsonSentinel = false ↔
      ∀ v ∈ items, v.namesASerdeJsonSentinel = false := by
  rw [namesASerdeJsonSentinel]
  induction items with
  | nil => simp [itemsNameASentinel]
  | cons v vs ih => simp [itemsNameASentinel, ih]

theorem namesASerdeJsonSentinel_obj :
    (obj members).namesASerdeJsonSentinel = false ↔
      ∀ m ∈ members, isSerdeJsonSentinel m.1 = false ∧ m.2.namesASerdeJsonSentinel = false := by
  rw [namesASerdeJsonSentinel]
  induction members with
  | nil => simp [membersNameASentinel]
  | cons m ms ih => simp [membersNameASentinel, ih]

/-- **A plain document.**  Its objects are ordered maps without reserved names and it nests at
most `n` deep: what the parts of a document inherit from the whole. -/
structure Plain (n : ℕ) (v : Json) : Prop where
  wellFormed : v.WellFormed
  noSentinel : v.namesASerdeJsonSentinel = false
  shallow : v.depth ≤ n

theorem plain_arr : Plain (n + 1) (arr items) ↔ ∀ v ∈ items, Plain n v := by
  constructor
  · rintro ⟨hwf, hnm, hdep⟩ v hv
    cases hwf with
    | arr h =>
      exact ⟨h v hv, namesASerdeJsonSentinel_arr.1 hnm v hv, depth_arr_le.1 hdep v hv⟩
  · intro h
    exact ⟨.arr fun v hv => (h v hv).wellFormed,
      namesASerdeJsonSentinel_arr.2 fun v hv => (h v hv).noSentinel,
      depth_arr_le.2 fun v hv => (h v hv).shallow⟩

theorem plain_obj :
    Plain (n + 1) (obj members) ↔ Sorted members ∧
    ∀ m ∈ members, isSerdeJsonSentinel m.1 = false ∧ Plain n m.2 := by
  constructor
  · rintro ⟨hwf, hnm, hdep⟩
    cases hwf with
    | obj hso h =>
      refine ⟨hso, fun m hm => ?_⟩
      obtain ⟨hkey, hval⟩ := namesASerdeJsonSentinel_obj.1 hnm m hm
      exact ⟨hkey, h m hm, hval, depth_obj_le.1 hdep m hm⟩
  · rintro ⟨hso, h⟩
    exact ⟨.obj hso fun m hm => (h m hm).2.wellFormed,
      namesASerdeJsonSentinel_obj.2 fun m hm => ⟨(h m hm).1, (h m hm).2.noSentinel⟩,
      depth_obj_le.2 fun m hm => (h m hm).2.shallow⟩

theorem Plain.member {w : Json} {name : String} (h : Plain (n + 1) v)
    (hw : v.member name = some w) : Plain n w := by
  cases v with
  | obj => exact ((plain_obj.1 h).2 _ (mem_of_lookup hw)).2
  | _ => cases hw

theorem plain_obj_nil (n : ℕ) : Plain (n + 1) (obj []) :=
  plain_obj.2 ⟨Sorted.nil, by simp⟩

/-- Storing a plain value under a name that is not reserved. -/
theorem Plain.insert {name : String} (h : Plain (n + 1) (obj members))
    (hnm : isSerdeJsonSentinel name = false) (hv : Plain n v) :
    Plain (n + 1) (obj (insert members name v)) := by
  obtain ⟨hso, hms⟩ := plain_obj.1 h
  refine plain_obj.2 ⟨hso.insert name v, fun m hm => ?_⟩
  rcases eq_or_mem_of_mem_insert hm with rfl | hm
  · exact ⟨hnm, hv⟩
  · exact hms m hm

theorem Plain.insertAll {l : List (String × Json)} (h : Plain (n + 1) (obj members))
    (hl : ∀ m ∈ l, isSerdeJsonSentinel m.1 = false ∧ Plain n m.2) :
    Plain (n + 1) (obj (insertAll members l)) := by
  induction l generalizing members with
  | nil => exact h
  | cons m l ih =>
    obtain ⟨⟨hnm, hv⟩, hl⟩ := List.forall_mem_cons.1 hl
    exact ih (h.insert hnm hv) hl

theorem plain_obj_collect {l : List (String × Json)}
    (hl : ∀ m ∈ l, isSerdeJsonSentinel m.1 = false ∧ Plain n m.2) :
    Plain (n + 1) (obj (collect l)) :=
  (plain_obj_nil n).insertAll hl

theorem Plain.mono {k : ℕ} (h : Plain n v) (hle : n ≤ k) : Plain k v :=
  { h with shallow := h.shallow.trans hle }

theorem plain_null (n : ℕ) : Plain (n + 1) null := ⟨.null, rfl, by simp [depth]⟩

theorem plain_bool (n : ℕ) (b : Bool) : Plain (n + 1) (bool b) := ⟨.bool b, rfl, by simp [depth]⟩

theorem plain_num (n : ℕ) (k : Number) : Plain (n + 1) (num k) := ⟨.num k, rfl, by simp [depth]⟩

theorem plain_str (n : ℕ) (s : String) : Plain (n + 1) (str s) := ⟨.str s, rfl, by simp [depth]⟩

end Json

/-! ### Texts -/

/-- An encoder and a decoder of JSON texts. -/
structure Serde where
  toString : Json → String
  fromStr : String → Option Json
  /-- What the decoder returns has ordered maps for objects. -/
  wellFormed_of_fromStr {raw : String} {v : Json} : fromStr raw = some v → v.WellFormed
  /-- The decoder reads back what the encoder writes; it stops at a nesting of 128. -/
  fromStr_toString {v : Json} : v.Plain 127 → fromStr (toString v) = some v

namespace Serde

variable (serde : Serde)

/-- Plain documents have distinct texts. -/
theorem toString_inj {v w : Json} (hv : v.Plain 127) (hw : w.Plain 127) :
    serde.toString v = serde.toString w ↔ v = w := by
  refine ⟨fun h => ?_, fun h => h ▸ rfl⟩
  have hrd := serde.fromStr_toString hv
  rw [h, serde.fromStr_toString hw] at hrd
  exact (Option.some.inj hrd).symm

end Serde

end AsteriusIdp
