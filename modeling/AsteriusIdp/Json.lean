import AsteriusIdp.Lib.Entries

/-!
# JSON values

The values `serde_json` parses: numbers keep the three shapes the parser distinguishes (an
integer and the float of the same value are not equal), and the members of an object are an
ordered map from their names.

Equality of values is decidable (`Json.decEq`); it is what the source's `==` and `contains` on
values compute.
-/

namespace AsteriusIdp

/-- The value of a finite double: 53 significant bits, within the range of the exponent. -/
def IsDouble (q : ℚ) : Prop :=
  q.den ∣ 2 ^ 1074 ∧ q.num.natAbs < 2 ^ 1024 ∧
    ∃ k < 1024, 2 ^ k ∣ q.num.natAbs ∧ q.num.natAbs < 2 ^ (53 + k)

instance decidableIsDouble (q : ℚ) : Decidable (IsDouble q) :=
  inferInstanceAs (Decidable (_ ∧ _ ∧ _))

/-- A JSON number as it was parsed. -/
inductive Number where
  | posInt (n : UInt64)
  | negInt (n : {n : Int64 // n < 0})
  | float (q : {q : ℚ // IsDouble q})
  deriving DecidableEq

/-- A JSON value. -/
inductive Json where
  | null
  | bool (b : Bool)
  | num (n : Number)
  | str (s : String)
  | arr (items : List Json)
  | obj (members : List (String × Json))

/-- The members of a JSON object. -/
abbrev Object := Entries String Json

namespace Json

mutual

/-- Equality of values, member by member. -/
def decEq : (a b : Json) → Decidable (a = b)
  | null, null => isTrue rfl
  | bool a, bool b => decidable_of_iff (a = b) (by simp)
  | num a, num b => decidable_of_iff (a = b) (by simp)
  | str a, str b => decidable_of_iff (a = b) (by simp)
  | arr a, arr b => @decidable_of_iff _ (a = b) (by simp) (decEqItems a b)
  | obj a, obj b => @decidable_of_iff _ (a = b) (by simp) (decEqMembers a b)
  | null, bool _ | null, num _ | null, str _ | null, arr _ | null, obj _
  | bool _, null | bool _, num _ | bool _, str _ | bool _, arr _ | bool _, obj _
  | num _, null | num _, bool _ | num _, str _ | num _, arr _ | num _, obj _
  | str _, null | str _, bool _ | str _, num _ | str _, arr _ | str _, obj _
  | arr _, null | arr _, bool _ | arr _, num _ | arr _, str _ | arr _, obj _
  | obj _, null | obj _, bool _ | obj _, num _ | obj _, str _ | obj _, arr _ =>
    isFalse (by simp)

/-- Equality of arrays. -/
def decEqItems : (a b : List Json) → Decidable (a = b)
  | [], [] => isTrue rfl
  | [], _ :: _ | _ :: _, [] => isFalse (by simp)
  | x :: xs, y :: ys =>
    @decidable_of_iff _ (x = y ∧ xs = ys) (by simp)
      (@instDecidableAnd _ _ (decEq x y) (decEqItems xs ys))

/-- Equality of objects. -/
def decEqMembers : (a b : List (String × Json)) → Decidable (a = b)
  | [], [] => isTrue rfl
  | [], _ :: _ | _ :: _, [] => isFalse (by simp)
  | (k, x) :: xs, (k', y) :: ys =>
    @decidable_of_iff _ (k = k' ∧ x = y ∧ xs = ys) (by simp [and_assoc])
      (@instDecidableAnd _ _ _ (@instDecidableAnd _ _ (decEq x y) (decEqMembers xs ys)))

end

instance : DecidableEq Json := decEq

/-! ### Reading a value at a type -/

/-- The members, when the value is an object. -/
def asObject : Json → Option Object
  | obj members => some members
  | _ => none

/-- The items, when the value is an array. -/
def asArray : Json → Option (List Json)
  | arr items => some items
  | _ => none

/-- The text, when the value is a string. -/
def asStr : Json → Option String
  | str s => some s
  | _ => none

/-- The Boolean, when the value is one. -/
def asBool : Json → Option Bool
  | bool b => some b
  | _ => none

/-- The number, when the value is an unsigned 64-bit integer. -/
def asU64 : Json → Option ℕ
  | num (.posInt n) => some n.toNat
  | _ => none

/-- The number, when the value is a signed 64-bit integer. -/
def asI64 : Json → Option ℤ
  | num (.posInt n) => if n.toNat < 2 ^ 63 then some n.toNat else none
  | num (.negInt n) => some n.1.toInt
  | _ => none

/-- A signed number as it is held. -/
def ofI64 (n : Int64) : Json :=
  num (if h : 0 ≤ n then .posInt n.toUInt64 else .negInt ⟨n, Int64.not_le.1 h⟩)

/-- The member of an object under a name. -/
def member (v : Json) (name : String) : Option Json := v.asObject.bind (Entries.lookup · name)

/-- Set a member of a value that is an object or not there yet. -/
def setMember (v : Json) (name : String) (w : Json) : Json :=
  match v with
  | obj members => obj (Entries.insert members name w)
  | null => obj [(name, w)]
  | _ => v

@[simp] theorem member_obj (ms : Object) (name : String) :
    (obj ms).member name = Entries.lookup ms name := rfl

variable {v : Json}

@[simp] theorem asObject_eq_some {o : Object} : v.asObject = some o ↔ v = obj o := by
  cases v <;> simp [asObject]

@[simp] theorem asArray_eq_some {l : List Json} : v.asArray = some l ↔ v = arr l := by
  cases v <;> simp [asArray]

@[simp] theorem asStr_eq_some {s : String} : v.asStr = some s ↔ v = str s := by
  cases v <;> simp [asStr]

@[simp] theorem asBool_eq_some {b : Bool} : v.asBool = some b ↔ v = bool b := by
  cases v <;> simp [asBool]

@[simp] theorem asU64_eq_some {n : ℕ} :
    v.asU64 = some n ↔ ∃ k : UInt64, v = num (.posInt k) ∧ k.toNat = n := by
  rcases v with _ | _ | (_ | _ | _) | _ | _ | _ <;> simp [asU64]

end Json

end AsteriusIdp
