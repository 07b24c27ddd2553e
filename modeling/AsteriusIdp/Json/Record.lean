import AsteriusIdp.Json

/-!
# Records and the length of a text

An encoder writes a record as an object: a member for each field that is there (`record`).  A
field that is read back by its name is the one that was written (`forall_lookup_recordMembers`).

`byteSize` is the length of the compact text of a value.  A record whose members are among those
of an object, each with a value that is no longer, is no longer than the object
(`byteSize_record_le`).
-/

namespace AsteriusIdp

namespace Entries

variable {κ α : Type*} [LinearOrder κ]

theorem insert_perm {m : Entries κ α} {k : κ} (h : ∀ e ∈ m, e.1 ≠ k) (a : α) :
    (insert m k a).Perm ((k, a) :: m) := by
  induction m with
  | nil => exact .refl _
  | cons e m ih =>
    obtain ⟨hne, hrs⟩ := List.forall_mem_cons.1 h
    rw [insert, if_neg (Ne.symm hne)]
    split_ifs
    · exact .refl _
    · exact ((ih hrs).cons e).trans (.swap _ _ _)

theorem insertAll_perm {m : Entries κ α} {l : List (κ × α)} (hl : l.Pairwise fun e e' => e.1 ≠ e'.1)
    (hm : ∀ e ∈ l, ∀ e' ∈ m, e'.1 ≠ e.1) : (insertAll m l).Perm (l ++ m) := by
  induction l generalizing m with
  | nil => exact .refl _
  | cons e l ih =>
    obtain ⟨hhd, htl⟩ := List.pairwise_cons.1 hl
    obtain ⟨hfr, hrs⟩ := List.forall_mem_cons.1 hm
    have hins := insert_perm hfr e.2
    refine (ih htl fun e₁ he₁ e' he' => ?_).trans ?_
    · rcases List.mem_cons.1 (hins.subset he') with rfl | he'
      · exact hhd e₁ he₁
      · exact hrs e₁ he₁ e' he'
    · exact (hins.append_left l).trans List.perm_middle

/-- Collecting entries with distinct keys only reorders them. -/
theorem collect_perm {l : List (κ × α)} (hl : l.Pairwise fun e e' => e.1 ≠ e'.1) :
    (collect l).Perm l := by
  rw [collect]
  simpa using insertAll_perm (m := []) hl (by simp)

end Entries

namespace Json

/-! ### Records -/

/-- The members of the fields that are there. -/
def present (fields : List (String × Option Json)) : List (String × Json) :=
  fields.filterMap fun f => f.2.map (f.1, ·)

/-- The object of the fields that are there. -/
def recordMembers (fields : List (String × Option Json)) : Object :=
  Entries.collect (present fields)

/-- The members that are present. -/
def record (fields : List (String × Option Json)) : Json := obj (recordMembers fields)

theorem mem_present {fields : List (String × Option Json)} {name : String} {v : Json} :
    (name, v) ∈ present fields ↔ (name, some v) ∈ fields := by
  simp only [present, List.mem_filterMap, Option.map_eq_some_iff, Prod.mk.injEq, Prod.exists]
  constructor
  · rintro ⟨_, _, hmem, _, rfl, rfl, rfl⟩
    exact hmem
  · intro hmem
    exact ⟨name, some v, hmem, v, rfl, rfl, rfl⟩

variable {fields : List (String × Option Json)}

section

variable (h : (fields.map Prod.fst).Nodup)
include h

theorem pairwise_present : (present fields).Pairwise fun e e' => e.1 ≠ e'.1 := by
  rw [present, List.pairwise_filterMap]
  refine (List.pairwise_map.1 h).imp ?_
  rintro ⟨_, _⟩ ⟨_, _⟩ hne _ he _ he'
  simp only [Option.map_eq_some_iff] at he he'
  obtain ⟨_, -, rfl⟩ := he
  obtain ⟨_, -, rfl⟩ := he'
  exact hne

/-- **A field is read back by its name.** -/
theorem forall_lookup_recordMembers :
    fields.Forall fun field => Entries.lookup (recordMembers fields) field.1 = field.2 := by
  rw [List.forall_iff_forall_mem]
  rintro ⟨_, _⟩ hfld
  refine Option.ext fun v => ?_
  rw [recordMembers, Entries.lookup_collect (pairwise_present h)]
  constructor
  · intro hv
    have hmem := mem_present.1 (Entries.mem_of_lookup hv)
    exact congrArg Prod.snd (List.inj_on_of_nodup_map h hfld hmem rfl)
  · rintro rfl
    exact Entries.lookup_of_mem (pairwise_present h) (mem_present.2 hfld)

end

theorem mem_of_mem_recordMembers {m : String × Json} (h : m ∈ recordMembers fields) :
    (m.1, some m.2) ∈ fields :=
  mem_present.1 (Entries.mem_of_mem_collect h)

theorem lookup_recordMembers_eq_none {name : String} (h : name ∉ fields.map Prod.fst) :
    Entries.lookup (recordMembers fields) name = none :=
  Option.eq_none_iff_forall_ne_some.2 fun _ hv =>
    h (List.mem_map_of_mem (mem_of_mem_recordMembers (Entries.mem_of_lookup hv)))

theorem recordMembers_eq_nil (h : (fields.map Prod.fst).Nodup) :
    recordMembers fields = [] ↔ ∀ f ∈ fields, f.2 = none := by
  rw [← List.length_eq_zero_iff, recordMembers,
    (Entries.collect_perm (pairwise_present h)).length_eq, List.length_eq_zero_iff, present]
  simp

/-! ### Lengths -/

/-- The bytes of a character in a text between quotes. -/
def charSize (c : Char) : ℕ :=
  if c = '"' ∨ c = '\\' then 2
  else if c.toNat ∈ [0x08, 0x09, 0x0A, 0x0C, 0x0D] then 2
  else if c.toNat < 0x20 then 6
  else c.utf8Size

/-- The bytes of a string. -/
def textSize (s : String) : ℕ := 2 + (s.toList.map charSize).sum

variable (floatSize : ℚ → ℕ)

/-- The bytes of a number.  How a float is printed is the encoder's business. -/
def numberSize : Number → ℕ
  | .posInt n => (Nat.toDigits 10 n.toNat).length
  | .negInt z => 1 + (Nat.toDigits 10 z.1.toInt.natAbs).length
  | .float q => floatSize q

mutual

/-- The bytes of the compact text of a value. -/
def byteSize : Json → ℕ
  | null => 4
  | bool b => if b then 4 else 5
  | num n => numberSize floatSize n
  | str s => textSize s
  | arr items => 2 + itemsSize items + (items.length - 1)
  | obj members => 2 + membersSize members + (members.length - 1)

/-- Of items. -/
def itemsSize : List Json → ℕ
  | [] => 0
  | v :: vs => byteSize v + itemsSize vs

/-- Of members. -/
def membersSize : List (String × Json) → ℕ
  | [] => 0
  | (name, v) :: ms => textSize name + 1 + byteSize v + membersSize ms

end

variable {floatSize}

theorem membersSize_eq (members : List (String × Json)) :
    membersSize floatSize members =
      (members.map fun m => textSize m.1 + 1 + byteSize floatSize m.2).sum := by
  induction members with
  | nil => rfl
  | cons m ms ih => rw [membersSize, ih, List.map_cons, List.sum_cons]

/-- Items that are no longer, one by one, make an array that is no longer. -/
theorem byteSize_arr_le {vs ws : List Json}
    (h : List.Forall₂ (fun v w => byteSize floatSize v ≤ byteSize floatSize w) vs ws) :
    byteSize floatSize (arr vs) ≤ byteSize floatSize (arr ws) := by
  have hit : itemsSize floatSize vs ≤ itemsSize floatSize ws := by
    induction h with
    | nil => exact le_rfl
    | cons hhd _ ih => exact Nat.add_le_add hhd ih
  have hlen := h.length_eq
  rw [byteSize, byteSize]
  omega

/-- Values with distinct keys, each bounded by one of `l` under the same key, add up to no more
than those of `l`. -/
theorem sum_le_of_dominated {κ α : Type*} {f : κ × α → ℕ} {m l : List (κ × α)}
    (hm : m.Pairwise fun e e' => e.1 ≠ e'.1) (h : ∀ e ∈ m, ∃ e' ∈ l, e'.1 = e.1 ∧ f e ≤ f e') :
    (m.map f).sum ≤ (l.map f).sum ∧ m.length ≤ l.length := by
  induction m generalizing l with
  | nil => simp
  | cons e m ih =>
    obtain ⟨hhd, htl⟩ := List.pairwise_cons.1 hm
    obtain ⟨⟨e', he', hkey, hle⟩, hrs⟩ := List.forall_mem_cons.1 h
    obtain ⟨l₁, l₂, rfl⟩ := List.append_of_mem he'
    -- The entry that bounds `e` bounds none of the others, whose keys differ.
    have hoth : ∀ a ∈ m, ∃ a' ∈ l₁ ++ l₂, a'.1 = a.1 ∧ f a ≤ f a' := by
      intro a ha
      obtain ⟨a', ha', hkey', hle'⟩ := hrs a ha
      refine ⟨a', ?_, hkey', hle'⟩
      simp only [List.mem_append, List.mem_cons] at ha' ⊢
      rcases ha' with ha' | rfl | ha'
      · exact .inl ha'
      · exact absurd (hkey.symm.trans hkey') (hhd a ha)
      · exact .inr ha'
    obtain ⟨hsum, hlen⟩ := ih htl hoth
    simp only [List.map_append, List.sum_append, List.length_append, List.map_cons, List.sum_cons,
      List.length_cons] at hsum hlen ⊢
    omega

/-- **A record is no longer than the object it was read from**, when each of its fields is no
longer than the member of that name. -/
theorem byteSize_record_le (hfld : (fields.map Prod.fst).Nodup) {ms : Object}
    (h : fields.Forall fun field => ∀ v, field.2 = some v → ∃ w,
      Entries.lookup ms field.1 = some w ∧ byteSize floatSize v ≤ byteSize floatSize w) :
    byteSize floatSize (record fields) ≤ byteSize floatSize (obj ms) := by
  have hpm := Entries.collect_perm (pairwise_present hfld)
  have hdom := sum_le_of_dominated (l := ms)
    (f := fun m => textSize m.1 + 1 + byteSize floatSize m.2) (pairwise_present hfld) (by
      rintro ⟨name, v⟩ hmem
      obtain ⟨w, hw, hle⟩ := List.forall_iff_forall_mem.1 h _ (mem_present.1 hmem) v rfl
      exact ⟨(name, w), Entries.mem_of_lookup hw, rfl, by simpa using hle⟩)
  rw [record, recordMembers, byteSize, byteSize, membersSize_eq, membersSize_eq, hpm.length_eq,
    (hpm.map _).sum_eq]
  omega

end Json

end AsteriusIdp
