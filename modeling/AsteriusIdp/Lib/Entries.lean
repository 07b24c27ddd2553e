import Mathlib

/-!
# Maps as lists of entries

A map is the list of its entries in increasing order of keys: what an ordered map yields when it
is iterated.  `insert` keeps that order (`Sorted.insert`), so the entries of a map built by
insertions have distinct keys, and a lookup sees what a loop over the entries sees
(`Sorted.lookup_iff_mem`).

The lemmas on `lookup` after an update need no order at all.
-/

namespace AsteriusIdp

/-! Names are sorted in several modules, with these instances. -/

instance stringTrans : IsTrans String (· ≤ ·) := inferInstance

instance stringAntisymm : Std.Antisymm (α := String) (· ≤ ·) := inferInstance

instance stringTotal : Std.Total (α := String) (· ≤ ·) := inferInstance

/-- The entries of a map. -/
abbrev Entries (κ : Type*) (α : Type*) := List (κ × α)

namespace Entries

variable {κ α : Type*} [LinearOrder κ]

/-- The value stored under a key. -/
def lookup (m : Entries κ α) (k : κ) : Option α :=
  match m with
  | [] => none
  | (k', a) :: m => if k = k' then some a else lookup m k

/-- Store a value under a key, in place of the one that was there. -/
def insert (m : Entries κ α) (k : κ) (a : α) : Entries κ α :=
  match m with
  | [] => [(k, a)]
  | (k', a') :: m =>
    if k = k' then (k, a) :: m
    else if k < k' then (k, a) :: (k', a') :: m
    else (k', a') :: insert m k a

/-- Forget a key. -/
def erase (m : Entries κ α) (k : κ) : Entries κ α := m.filter fun e => e.1 ≠ k

/-- Change the values of the entries that satisfy `p`. -/
def updateWhere (p : κ → α → Bool) (f : α → α) (m : Entries κ α) : Entries κ α :=
  m.map fun e => if p e.1 e.2 then (e.1, f e.2) else e

/-- Does the map have an entry for the key? -/
def contains (m : Entries κ α) (k : κ) : Bool := (lookup m k).isSome

/-- The keys increase along the list. -/
def Sorted (m : Entries κ α) : Prop := m.Pairwise fun e e' => e.1 < e'.1

/-! ### Lookup after an update -/

@[simp] theorem lookup_nil (k : κ) : lookup ([] : Entries κ α) k = none := rfl

theorem lookup_cons (e : κ × α) (m : Entries κ α) (k : κ) :
    lookup (e :: m) k = if k = e.1 then some e.2 else lookup m k := rfl

theorem lookup_insert (m : Entries κ α) (k : κ) (a : α) (k₁ : κ) :
    lookup (insert m k a) k₁ = if k₁ = k then some a else lookup m k₁ := by
  induction m with
  | nil => simp [insert, lookup_cons]
  | cons e m ih =>
    unfold insert
    by_cases hk : k₁ = k
    · subst hk
      simp only [if_true] at ih ⊢
      split_ifs with h₁ h₂ <;> simp [lookup_cons, h₁, ih]
    · simp only [hk, if_false] at ih ⊢
      split_ifs with h₁ h₂
      · subst h₁
        simp [lookup_cons, hk]
      · simp [lookup_cons, hk]
      · simp [lookup_cons, ih]

@[simp] theorem lookup_insert_self (m : Entries κ α) (k : κ) (a : α) :
    lookup (insert m k a) k = some a := by
  simp [lookup_insert]

variable {k : κ} {m : Entries κ α} {a : α} {e : κ × α} {l : List (κ × α)}

theorem lookup_insert_of_ne (m : Entries κ α) {k₁ : κ} (a : α) (h : k₁ ≠ k) :
    lookup (insert m k a) k₁ = lookup m k₁ := by
  simp [lookup_insert, h]

/-- An entry that is added where there is none. -/
theorem lookup_or (m : Entries κ α) (k k₁ : κ) (a : α) :
    (lookup m k₁).or (if k₁ = k then some a else none) =
      if contains m k then lookup m k₁ else lookup (insert m k a) k₁ := by
  rw [contains, lookup_insert]
  by_cases hk : k₁ = k
  · subst hk
    cases lookup m k₁ <;> simp
  · simp [hk]

theorem lookup_filter (p : κ → Bool) (m : Entries κ α) (k : κ) :
    lookup (m.filter fun e => p e.1) k = if p k then lookup m k else none := by
  induction m with
  | nil => simp
  | cons e m ih =>
    by_cases hk : k = e.1
    · subst hk
      cases hp : p e.1 <;> simp [hp, ih, lookup_cons]
    · cases hp : p e.1 <;> simp [hp, ih, lookup_cons, hk]

theorem lookup_erase (m : Entries κ α) (k k₁ : κ) :
    lookup (erase m k) k₁ = if k₁ = k then none else lookup m k₁ := by
  have := lookup_filter (fun k' => decide (k' ≠ k)) m k₁
  by_cases h : k₁ = k <;> simpa [erase] using this

@[simp] theorem lookup_erase_self (m : Entries κ α) (k : κ) : lookup (erase m k) k = none := by
  simp [lookup_erase]

theorem lookup_erase_of_ne (m : Entries κ α) {k₁ : κ} (h : k₁ ≠ k) :
    lookup (erase m k) k₁ = lookup m k₁ := by
  simp [lookup_erase, h]

@[simp] theorem lookup_updateWhere (p : κ → α → Bool) (f : α → α) (m : Entries κ α) (k : κ) :
    lookup (updateWhere p f m) k = (lookup m k).map fun a => if p k a then f a else a := by
  induction m with
  | nil => rfl
  | cons e m ih =>
    have hkey : (if p e.1 e.2 then (e.1, f e.2) else e).1 = e.1 := by split_ifs <;> rfl
    unfold updateWhere at ih ⊢
    rw [List.map_cons, lookup_cons, lookup_cons, hkey, ih]
    by_cases hk : k = e.1
    · subst hk
      simp only [if_true, Option.map_some]
      split_ifs <;> rfl
    · simp [hk]

theorem mem_of_lookup (h : lookup m k = some a) : (k, a) ∈ m := by
  induction m with
  | nil => simp at h
  | cons e m ih =>
    rw [lookup_cons] at h
    split_ifs at h with hk
    · simp only [Option.some.injEq] at h
      subst hk h
      exact List.mem_cons_self
    · exact List.mem_cons_of_mem _ (ih h)

/-! ### Sorted entries -/

theorem eq_or_mem_of_mem_insert (h : e ∈ insert m k a) : e = (k, a) ∨ e ∈ m := by
  induction m with
  | nil => exact .inl (List.mem_singleton.1 h)
  | cons e' m ih =>
    unfold insert at h
    split_ifs at h with h₁ h₂
    · rcases List.mem_cons.1 h with rfl | h
      · exact .inl rfl
      · exact .inr (List.mem_cons_of_mem _ h)
    · rcases List.mem_cons.1 h with rfl | h
      · exact .inl rfl
      · exact .inr h
    · rcases List.mem_cons.1 h with rfl | h
      · exact .inr List.mem_cons_self
      · exact (ih h).imp id (List.mem_cons_of_mem _)

theorem Sorted.nil : Sorted ([] : Entries κ α) := List.Pairwise.nil

theorem Sorted.insert (h : Sorted m) (k : κ) (a : α) : Sorted (Entries.insert m k a) := by
  induction m with
  | nil => exact List.pairwise_singleton _ _
  | cons e m ih =>
    obtain ⟨hlt, hm⟩ := List.pairwise_cons.1 h
    unfold Entries.insert
    split_ifs with h₁ h₂
    · subst h₁
      exact List.pairwise_cons.2 ⟨hlt, hm⟩
    · refine List.pairwise_cons.2 ⟨?_, h⟩
      rintro e he
      rcases List.mem_cons.1 he with rfl | he
      · exact h₂
      · exact lt_trans h₂ (hlt e he)
    · refine List.pairwise_cons.2 ⟨?_, ih hm⟩
      intro e he
      rcases eq_or_mem_of_mem_insert he with rfl | he
      · exact lt_of_le_of_ne (not_lt.1 h₂) (Ne.symm h₁)
      · exact hlt e he

/-- A key above all others goes to the end. -/
theorem insert_eq_append (h : ∀ e ∈ m, e.1 < k) (a : α) : insert m k a = m ++ [(k, a)] := by
  induction m with
  | nil => rfl
  | cons e m ih =>
    obtain ⟨hlt, hm⟩ := List.forall_mem_cons.1 h
    simp [insert, ne_of_gt hlt, not_lt_of_gt hlt, ih hm]

theorem Sorted.updateWhere (h : Sorted m) (p : κ → α → Bool) (f : α → α) :
    Sorted (Entries.updateWhere p f m) := by
  refine List.pairwise_map.2 (h.imp fun {e e'} hlt => ?_)
  split_ifs <;> exact hlt

theorem lookup_of_mem (h : m.Pairwise fun e e' => e.1 ≠ e'.1) (he : (k, a) ∈ m) :
    lookup m k = some a := by
  induction m with
  | nil => simp at he
  | cons e m ih =>
    obtain ⟨hne, hm⟩ := List.pairwise_cons.1 h
    rw [lookup_cons]
    rcases List.mem_cons.1 he with rfl | he
    · simp
    · rw [if_neg (hne _ he).symm, ih hm he]

theorem Sorted.lookup_of_mem (h : Sorted m) (he : (k, a) ∈ m) : lookup m k = some a :=
  Entries.lookup_of_mem (h.imp fun hlt => ne_of_lt hlt) he

/-- In a sorted map a lookup sees exactly the entries of the list. -/
theorem Sorted.lookup_iff_mem (h : Sorted m) : lookup m k = some a ↔ (k, a) ∈ m :=
  ⟨mem_of_lookup, h.lookup_of_mem⟩

/-- Distinct positions of a sorted map have distinct keys. -/
theorem Sorted.pairwise_ne (h : Sorted m) : m.Pairwise fun e e' => e.1 ≠ e'.1 :=
  h.imp fun hlt => ne_of_lt hlt

/-- Sorted maps with the same lookups are the same list. -/
theorem Sorted.ext {m' : Entries κ α} (h : Sorted m) (h' : Sorted m')
    (hlk : ∀ k, lookup m k = lookup m' k) : m = m' := by
  refine List.Perm.eq_of_pairwise (fun e e' _ _ hlt hgt => absurd hgt (lt_asymm hlt)) h h' ?_
  refine (List.perm_ext_iff_of_nodup (h.imp ?_) (h'.imp ?_)).2 fun e => ?_
  · exact fun hlt heq => ne_of_lt hlt (congrArg Prod.fst heq)
  · exact fun hlt heq => ne_of_lt hlt (congrArg Prod.fst heq)
  · rw [← Sorted.lookup_iff_mem h, ← Sorted.lookup_iff_mem h', hlk]

/-- A value stored where it is already changes nothing. -/
theorem Sorted.insert_of_lookup (h : Sorted m) (hk : lookup m k = some a) :
    Entries.insert m k a = m := by
  refine (h.insert k a).ext h fun k' => ?_
  rw [lookup_insert]
  split_ifs with heq
  · rw [heq, hk]
  · rfl

/-! ### Keys -/

/-- The keys. -/
def keys (m : Entries κ α) : Finset κ := (m.map Prod.fst).toFinset

theorem isSome_lookup_iff : (lookup m k).isSome ↔ ∃ a, (k, a) ∈ m := by
  induction m with
  | nil => simp
  | cons e m ih =>
    obtain ⟨k', _⟩ := e
    rw [lookup_cons]
    by_cases hk : k = k'
    · simp [hk]
    · simp [hk, ih]

theorem erase_insert_self (m : Entries κ α) (k : κ) (a : α) :
    erase (insert m k a) k = erase m k := by
  induction m with
  | nil => simp [erase, insert]
  | cons e m ih =>
    unfold erase at ih ⊢
    rw [insert]
    split_ifs with heq
    · simp [← heq]
    · simp
    · rw [List.filter_cons, List.filter_cons, ih]

theorem erase_of_lookup (h : lookup m k = none) : erase m k = m := by
  rw [erase, List.filter_eq_self]
  rintro ⟨k', a⟩ he
  refine decide_eq_true fun heq : k' = k => ?_
  subst heq
  have hso := isSome_lookup_iff.2 ⟨a, he⟩
  rw [h] at hso
  cases hso

theorem mem_keys : k ∈ keys m ↔ (lookup m k).isSome := by
  simp [keys, isSome_lookup_iff]

theorem Sorted.card_keys (h : Sorted m) : (keys m).card = m.length := by
  rw [keys, List.toFinset_card_of_nodup, List.length_map]
  exact List.pairwise_map.2 h.pairwise_ne

theorem Sorted.filter (h : Sorted m) (p : κ × α → Bool) : Sorted (m.filter p) :=
  List.Pairwise.filter p h

/-! ### Storing a list of entries -/

/-- Store the entries of a list one after the other. -/
def insertAll (m : Entries κ α) (l : List (κ × α)) : Entries κ α :=
  l.foldl (fun m e => insert m e.1 e.2) m

/-- The map of a list of entries; of two entries for a key the later one counts. -/
def collect (l : List (κ × α)) : Entries κ α := insertAll [] l

theorem Sorted.insertAll (h : Sorted m) (l : List (κ × α)) : Sorted (Entries.insertAll m l) := by
  induction l generalizing m with
  | nil => exact h
  | cons e l ih => exact ih (h.insert e.1 e.2)

theorem length_insert_le (m : Entries κ α) (k : κ) (a : α) :
    (insert m k a).length ≤ m.length + 1 := by
  induction m with
  | nil => simp [insert]
  | cons e m ih =>
    unfold insert
    split_ifs <;> simp [ih]

theorem le_length_insert (m : Entries κ α) (k : κ) (a : α) : m.length ≤ (insert m k a).length := by
  induction m with
  | nil => simp
  | cons e m ih =>
    unfold insert
    split_ifs <;> simp [ih]

theorem length_insertAll_le (m : Entries κ α) (l : List (κ × α)) :
    (insertAll m l).length ≤ m.length + l.length := by
  induction l generalizing m with
  | nil => exact le_rfl
  | cons e l ih =>
    have := ih (insert m e.1 e.2)
    have := length_insert_le m e.1 e.2
    simp only [insertAll, List.foldl_cons, List.length_cons] at *
    omega

theorem le_length_insertAll (m : Entries κ α) (l : List (κ × α)) :
    m.length ≤ (insertAll m l).length := by
  induction l generalizing m with
  | nil => exact le_rfl
  | cons e l ih => exact (le_length_insert m e.1 e.2).trans (ih _)

theorem collect_ne_nil (h : l ≠ []) : collect l ≠ [] := by
  cases l with
  | nil => exact absurd rfl h
  | cons e l =>
    have : [e].length ≤ (collect (e :: l)).length := le_length_insertAll [e] l
    intro hnil
    simp [hnil] at this

theorem length_collect_le (l : List (κ × α)) : (collect l).length ≤ l.length := by
  simpa [collect] using length_insertAll_le [] l

theorem Sorted.collect (l : List (κ × α)) : Sorted (Entries.collect l) :=
  Sorted.nil.insertAll l

theorem mem_or_mem_of_mem_insertAll (h : e ∈ insertAll m l) : e ∈ l ∨ e ∈ m := by
  induction l generalizing m with
  | nil => exact .inr h
  | cons e' l ih =>
    rcases ih h with h | h
    · exact .inl (List.mem_cons_of_mem _ h)
    · rcases eq_or_mem_of_mem_insert h with rfl | h
      · exact .inl List.mem_cons_self
      · exact .inr h

theorem mem_of_mem_collect (h : e ∈ collect l) : e ∈ l :=
  (mem_or_mem_of_mem_insertAll h).resolve_right (by simp)

/-- When the keys of the list are distinct, its entries come before those of the map. -/
theorem lookup_insertAll (h : l.Pairwise fun e e' => e.1 ≠ e'.1) (k : κ) :
    lookup (insertAll m l) k = (lookup l k).or (lookup m k) := by
  induction l generalizing m with
  | nil => rfl
  | cons e l ih =>
    obtain ⟨hne, hl⟩ := List.pairwise_cons.1 h
    have hst : insertAll m (e :: l) = insertAll (insert m e.1 e.2) l := rfl
    rw [hst, ih hl, lookup_insert, lookup_cons]
    by_cases hk : k = e.1
    · have hno : lookup l k = none := by
        rw [← Option.not_isSome_iff_eq_none, isSome_lookup_iff]
        rintro ⟨_, ha⟩
        exact hne _ ha hk.symm
      rw [hno, if_pos hk, if_pos hk]
      rfl
    · simp [hk]

theorem lookup_collect (h : l.Pairwise fun e e' => e.1 ≠ e'.1) (k : κ) :
    lookup (collect l) k = lookup l k := by
  simp [collect, lookup_insertAll h]

/-- A list in increasing order of keys is the map it is collected into. -/
theorem Sorted.collect_eq {l : Entries κ α} (h : Sorted l) : Entries.collect l = l :=
  (Sorted.collect l).ext h (lookup_collect h.pairwise_ne)

theorem collect_pair {k' : κ} (h : k' < k) (a b : α) :
    collect [(k, a), (k', b)] = [(k', b), (k, a)] := by
  simp [collect, insertAll, insert, h, ne_of_lt h]

theorem Sorted.insertAll_insertAll {l : Entries κ α} (h : Sorted m) (hl : Sorted l) :
    Entries.insertAll (Entries.insertAll m l) l = Entries.insertAll m l := by
  refine ((h.insertAll l).insertAll l).ext (h.insertAll l) fun k => ?_
  rw [lookup_insertAll hl.pairwise_ne, lookup_insertAll hl.pairwise_ne]
  cases lookup l k <;> rfl

theorem Sorted.insertAll_self (h : Sorted m) : Entries.insertAll m m = m := by
  refine (h.insertAll m).ext h fun k => ?_
  rw [lookup_insertAll h.pairwise_ne]
  cases lookup m k <;> rfl

/-! ### Merging two maps -/

/-- Store the entries of a list, each one combined with what its key held. -/
def mergeWith (f : Option α → α → α) (m : Entries κ α) (l : List (κ × α)) : Entries κ α :=
  l.foldl (fun m e => insert m e.1 (f (lookup m e.1) e.2)) m

theorem Sorted.mergeWith (h : Sorted m) (f : Option α → α → α) (l : List (κ × α)) :
    Sorted (Entries.mergeWith f m l) := by
  induction l generalizing m with
  | nil => exact h
  | cons e l ih => exact ih (h.insert e.1 _)

theorem lookup_mergeWith {f : Option α → α → α} (h : l.Pairwise fun e e' => e.1 ≠ e'.1) (k : κ) :
    lookup (mergeWith f m l) k = ((lookup l k).map (f (lookup m k))).or (lookup m k) := by
  induction l generalizing m with
  | nil => rfl
  | cons e l ih =>
    obtain ⟨hne, hl⟩ := List.pairwise_cons.1 h
    have hst : mergeWith f m (e :: l) = mergeWith f (insert m e.1 (f (lookup m e.1) e.2)) l := rfl
    rw [hst, ih hl, lookup_insert, lookup_cons]
    by_cases hk : k = e.1
    · -- no later entry has the key
      have hno : lookup l k = none := by
        rw [← Option.not_isSome_iff_eq_none, isSome_lookup_iff]
        rintro ⟨_, ha⟩
        exact hne _ ha hk.symm
      subst hk
      simp [hno]
    · simp [hk]

/-- Merging the same map a second time changes nothing when no value does. -/
theorem Sorted.mergeWith_mergeWith {f : Option α → α → α} {l : Entries κ α} (h : Sorted m)
    (hl : Sorted l)
    (hf : ∀ k a, lookup l k = some a → f (some (f (lookup m k) a)) a = f (lookup m k) a) :
    Entries.mergeWith f (Entries.mergeWith f m l) l = Entries.mergeWith f m l := by
  refine ((h.mergeWith f l).mergeWith f l).ext (h.mergeWith f l) fun k => ?_
  rw [lookup_mergeWith hl.pairwise_ne, lookup_mergeWith hl.pairwise_ne]
  cases hk : lookup l k with
  | none => simp
  | some a => simp [hf k a hk]

section Map

variable {κ' β : Type*} [LinearOrder κ'] {f : κ → κ'} {g : κ → α → β}

/-- The entries under new names. -/
def mapEntries (f : κ → κ') (g : κ → α → β) (m : Entries κ α) : List (κ' × β) :=
  m.map fun e => (f e.1, g e.1 e.2)

theorem lookup_mapEntries (hf : Function.Injective f) (m : Entries κ α) (k : κ) :
    lookup (mapEntries f g m) (f k) = (lookup m k).map (g k) := by
  induction m with
  | nil => rfl
  | cons e m ih =>
    have hcn : mapEntries f g (e :: m) = (f e.1, g e.1 e.2) :: mapEntries f g m := rfl
    rw [hcn, lookup_cons, lookup_cons, ih]
    by_cases hk : k = e.1
    · simp [hk]
    · simp [hk, hf.ne hk]

variable {m : Entries κ α}

omit [LinearOrder κ] in
theorem lookup_mapEntries_eq_none {k : κ'} (h : ∀ e ∈ m, f e.1 ≠ k) :
    lookup (mapEntries f g m) k = none := by
  rw [← Option.not_isSome_iff_eq_none, isSome_lookup_iff]
  rintro ⟨_, hb⟩
  obtain ⟨e, he, heq⟩ := List.mem_map.1 hb
  exact h e he (congrArg Prod.fst heq)

omit [LinearOrder κ'] in
theorem Sorted.pairwise_mapEntries (h : Sorted m) (hf : Function.Injective f) :
    (mapEntries f g m).Pairwise fun e e' => e.1 ≠ e'.1 :=
  List.pairwise_map.2 (h.imp fun hlt => hf.ne (ne_of_lt hlt))

theorem Sorted.mapEntries (h : Sorted m) (hf : StrictMono f) : Sorted (Entries.mapEntries f g m) :=
  List.pairwise_map.2 (h.imp fun hlt => hf hlt)

end Map

end Entries

end AsteriusIdp
