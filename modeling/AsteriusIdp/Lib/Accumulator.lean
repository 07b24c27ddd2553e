import AsteriusIdp.Lib.Fallible

/-!
# Merging that accumulates facts

Inputs are merged one after the other into a collected value, and every merge may find a conflict.
An `Accumulator` is such a merge together with what it means: a collected value stands for a set of
facts, an input for the facts it adds, and a merge returns when the facts that have come together
are still consistent.  Consistency is inherited by smaller sets, so a conflict met on the way is
one at the end, and the order of the inputs is immaterial although each merge is checked.

* `Accumulator.fold`, `Accumulator.checked`, `Accumulator.slot`, `Accumulator.view` : the merge of
  a list of inputs, between two checks, of one entry into a map, and through a representation.
* `Accumulator.perm` : **two orders of the inputs both fail, or return the same facts.**
* `Accumulator.replicate` : an input merged again changes nothing.
-/

namespace AsteriusIdp

open Fallible Entries

universe u v

/-- A fallible merge of inputs `β` into a collected `α`, with the facts `δ` they stand for. -/
structure Accumulator (ε : Type u) (α : Type v) (β : Type*) (δ : Type*) where
  /-- One input merged. -/
  merge : α → β → Except ε α
  /-- The invariant of the collected values. -/
  Good : α → Prop
  /-- The shape of the inputs. -/
  Fit : β → Prop
  /-- What the merge checks of an input alone. -/
  Valid : β → Prop
  /-- The facts of a collected value. -/
  content : α → Set δ
  /-- The facts an input adds. -/
  adds : β → Set δ
  /-- The sets of facts without a conflict. -/
  Consistent : Set δ → Prop
  lower : IsLowerSet {s | Consistent s}
  consistent : ∀ {a}, Good a → Consistent (content a)
  returns : ∀ {a b}, Good a → Fit b → Valid b → Consistent (content a ∪ adds b) →
    ∃ a', merge a b = .ok a'
  spec : ∀ {a b a'}, Good a → Fit b → merge a b = .ok a' →
    Good a' ∧ Valid b ∧ content a' = content a ∪ adds b
  absorb : ∀ {a b}, Good a → Fit b → Valid b → adds b ⊆ content a → merge a b = .ok a

namespace Accumulator

variable {ε : Type u} {α : Type v} {β δ : Type*} (A : Accumulator ε α β δ)

/-! ### Lists of inputs -/

variable {a : α} {l : List β}

theorem foldlM_returns (hgd : A.Good a) (hfit : ∀ b ∈ l, A.Fit b) (hok : ∀ b ∈ l, A.Valid b)
    (hcn : A.Consistent (A.content a ∪ ⋃ b ∈ l, A.adds b)) : ∃ a', l.foldlM A.merge a = .ok a' := by
  induction l generalizing a with
  | nil => exact ⟨a, rfl⟩
  | cons b l ih =>
    obtain ⟨hfi, hfitl⟩ := List.forall_mem_cons.1 hfit
    obtain ⟨hval, hva⟩ := List.forall_mem_cons.1 hok
    have hfst : A.content a ∪ A.adds b ⊆ A.content a ∪ ⋃ b' ∈ b :: l, A.adds b' :=
      Set.union_subset_union_right _ (Set.subset_biUnion_of_mem List.mem_cons_self)
    obtain ⟨a₁, ha₁⟩ := A.returns hgd hfi hval (A.lower hfst hcn)
    obtain ⟨hgd₁, -, hct₁⟩ := A.spec hgd hfi ha₁
    have hrs : A.content a₁ ∪ ⋃ b' ∈ l, A.adds b' = A.content a ∪ ⋃ b' ∈ b :: l, A.adds b' := by
      rw [hct₁, Set.union_assoc]
      simp
    obtain ⟨a', ha'⟩ := ih hgd₁ hfitl hva (hrs ▸ hcn)
    exact ⟨a', by simpa [ha₁] using ha'⟩

theorem foldlM_spec {a' : α} (hgd : A.Good a) (hfit : ∀ b ∈ l, A.Fit b)
    (h : l.foldlM A.merge a = .ok a') :
    A.Good a' ∧ (∀ b ∈ l, A.Valid b) ∧ A.content a' = A.content a ∪ ⋃ b ∈ l, A.adds b := by
  induction l generalizing a with
  | nil =>
    simp only [List.foldlM_nil, pure_ok] at h
    subst h
    exact ⟨hgd, by simp, by simp⟩
  | cons b l ih =>
    obtain ⟨hfi, hfitl⟩ := List.forall_mem_cons.1 hfit
    simp only [List.foldlM_cons, bind_ok] at h
    obtain ⟨_, ha₁, h⟩ := h
    obtain ⟨hgd₁, hval, hct₁⟩ := A.spec hgd hfi ha₁
    obtain ⟨hgd', hva, hct'⟩ := ih hgd₁ hfitl h
    refine ⟨hgd', List.forall_mem_cons.2 ⟨hval, hva⟩, ?_⟩
    rw [hct', hct₁, Set.union_assoc]
    simp

theorem foldlM_absorb (hgd : A.Good a) (hfit : ∀ b ∈ l, A.Fit b) (hok : ∀ b ∈ l, A.Valid b)
    (hsub : ∀ b ∈ l, A.adds b ⊆ A.content a) : l.foldlM A.merge a = .ok a := by
  induction l with
  | nil => rfl
  | cons b l ih =>
    obtain ⟨hfi, hfitl⟩ := List.forall_mem_cons.1 hfit
    obtain ⟨hval, hva⟩ := List.forall_mem_cons.1 hok
    obtain ⟨hsu, hsubl⟩ := List.forall_mem_cons.1 hsub
    rw [List.foldlM_cons, A.absorb hgd hfi hval hsu]
    exact ih hfitl hva hsubl

/-- A list of inputs merged one after the other. -/
def fold : Accumulator ε α (List β) δ where
  merge a l := l.foldlM A.merge a
  Good := A.Good
  Fit l := ∀ b ∈ l, A.Fit b
  Valid l := ∀ b ∈ l, A.Valid b
  content := A.content
  adds l := ⋃ b ∈ l, A.adds b
  Consistent := A.Consistent
  lower := A.lower
  consistent := A.consistent
  returns := A.foldlM_returns
  spec := A.foldlM_spec
  absorb hgood hfit hvalid hsub :=
    A.foldlM_absorb hgood hfit hvalid (Set.iUnion₂_subset_iff.1 hsub)

/-- **The order is immaterial.**  Two orders of the inputs both fail, or both return, and then they
have collected the same facts. -/
theorem perm {l' : List β} (h : l.Perm l') (hgd : A.Good a) (hfit : ∀ b ∈ l, A.Fit b) :
    ((∀ r, l.foldlM A.merge a ≠ .ok r) ∧ ∀ r, l'.foldlM A.merge a ≠ .ok r) ∨
      ∃ r r', l.foldlM A.merge a = .ok r ∧ l'.foldlM A.merge a = .ok r' ∧
      A.Good r ∧ A.Good r' ∧ A.content r = A.content r' := by
  -- one order returns when the other does: the facts are the same, and so is their consistency
  have hoth : ∀ {l l' : List β} {r : α}, l.Perm l' → (∀ b ∈ l, A.Fit b) →
      l.foldlM A.merge a = .ok r → ∃ r', l'.foldlM A.merge a = .ok r' ∧ A.Good r ∧ A.Good r' ∧
      A.content r = A.content r' := by
    intro l l' r h hfit hr
    have hfit' : ∀ b ∈ l', A.Fit b := fun b hb => hfit b (h.mem_iff.2 hb)
    obtain ⟨hgoo, hok, hct⟩ := A.foldlM_spec hgd hfit hr
    have had : ⋃ b ∈ l, A.adds b = ⋃ b ∈ l', A.adds b := by simp [h.mem_iff]
    have hcn : A.Consistent (A.content a ∪ ⋃ b ∈ l', A.adds b) := by
      rw [← had, ← hct]
      exact A.consistent hgoo
    obtain ⟨r', hr'⟩ :=
      A.foldlM_returns hgd hfit' (fun b hb => hok b (h.mem_iff.2 hb)) hcn
    obtain ⟨hgoo', -, hct'⟩ := A.foldlM_spec hgd hfit' hr'
    exact ⟨r', hr', hgoo, hgoo', by rw [hct, hct', had]⟩
  by_cases hr : ∃ r, l.foldlM A.merge a = .ok r
  · obtain ⟨r, hr⟩ := hr
    obtain ⟨r', hr', hsm⟩ := hoth h hfit hr
    exact .inr ⟨r, r', hr, hr', hsm⟩
  · refine .inl ⟨fun r h' => hr ⟨r, h'⟩, fun r' hr' => hr ?_⟩
    obtain ⟨r, h', -⟩ := hoth h.symm (fun b hb => hfit b (h.mem_iff.2 hb)) hr'
    exact ⟨r, h'⟩

/-- **An input merged again changes nothing.** -/
theorem replicate {b : β} (hgd : A.Good a) (hfit : A.Fit b) (n : ℕ) :
    (List.replicate (n + 1) b).foldlM A.merge a = A.merge a b := by
  rw [List.replicate_succ, List.foldlM_cons]
  cases h : A.merge a b with
  | error => rfl
  | ok =>
    obtain ⟨hgoo, hok, hct⟩ := A.spec hgd hfit h
    have hb : ∀ {P : β → Prop}, P b → ∀ b' ∈ List.replicate n b, P b' := by
      intro _ _ _ hb'
      rwa [List.eq_of_mem_replicate hb']
    refine A.foldlM_absorb hgoo (hb hfit) (hb hok) (hb ?_)
    rw [hct]
    exact Set.subset_union_right

/-- A merge between two checks, one of the input and one of what has been collected. -/
def checked (pre : β → Except ε PUnit) (post : α → Except ε PUnit) (Fit' : β → Prop)
    (C : Set δ → Prop) (hlower : IsLowerSet {s | C s})
    (hpre : ∀ b, Fit' b → pre b = .ok ⟨⟩ → A.Fit b ∧ A.Valid b)
    (hpost : ∀ a, A.Good a → (post a = .ok ⟨⟩ ↔ C (A.content a))) : Accumulator ε α β δ where
  merge a b := do
    pre b
    let a' ← A.merge a b
    post a'
    pure a'
  Good a := A.Good a ∧ C (A.content a)
  Fit := Fit'
  Valid b := pre b = .ok ⟨⟩
  content := A.content
  adds := A.adds
  Consistent s := A.Consistent s ∧ C s
  lower _ _ hst hs := ⟨A.lower hst hs.1, hlower hst hs.2⟩
  consistent hgood := ⟨A.consistent hgood.1, hgood.2⟩
  returns {a b} hgood hfit hvalid hcons := by
    obtain ⟨hfitA, hvalidA⟩ := hpre b hfit hvalid
    obtain ⟨a', ha'⟩ := A.returns hgood.1 hfitA hvalidA hcons.1
    obtain ⟨hgood', -, hcontent⟩ := A.spec hgood.1 hfitA ha'
    have hok := (hpost a' hgood').2 (hcontent ▸ hcons.2)
    exact ⟨a', by simp [hvalid, ha', hok]⟩
  spec {a b a'} hgood hfit h := by
    simp only [bind_ok, pure_ok] at h
    obtain ⟨_, hvalid, _, ha', _, hok, rfl⟩ := h
    obtain ⟨hfitA, -⟩ := hpre b hfit hvalid
    obtain ⟨hgood', -, hcontent⟩ := A.spec hgood.1 hfitA ha'
    exact ⟨⟨hgood', (hpost _ hgood').1 hok⟩, hvalid, hcontent⟩
  absorb {a b} hgood hfit hvalid hsub := by
    obtain ⟨hfitA, hvalidA⟩ := hpre b hfit hvalid
    have hok := (hpost a hgood.1).2 hgood.2
    simp [hvalid, A.absorb hgood.1 hfitA hvalidA hsub, hok]

/-! ### Maps -/

section Slot

variable {κ : Type v} [LinearOrder κ]

/-- The facts of the values of a map, each with its key; `none` is the presence of the key. -/
def slotContent (m : Entries κ α) : Set (κ × Option δ) :=
  {d | ∃ a, Entries.lookup m d.1 = some a ∧ ∀ x ∈ d.2, x ∈ A.content a}

/-- The facts of an entry. -/
def slotAdds (e : κ × β) : Set (κ × Option δ) :=
  {d | d.1 = e.1 ∧ ∀ x ∈ d.2, x ∈ A.adds e.2}

/-- One entry merged into the value its key has. -/
def slotMerge (empty : α) (m : Entries κ α) (e : κ × β) : Except ε (Entries κ α) := do
  let a ← A.merge ((Entries.lookup m e.1).getD empty) e.2
  pure (Entries.insert m e.1 a)

variable {empty : α} {m : Entries κ α}

theorem slotContent_insert {a a' : α} {e : κ × β} (hemp : A.content empty = ∅)
    (hlk : (lookup m e.1).getD empty = a) (hct : A.content a' = A.content a ∪ A.adds e.2) :
    A.slotContent (insert m e.1 a') = A.slotContent m ∪ A.slotAdds e := by
  ext ⟨k, d⟩
  simp only [slotContent, slotAdds, Set.mem_union, Set.mem_ofPred_eq, lookup_insert]
  by_cases hk : k = e.1
  · subst hk
    cases hm : lookup m e.1 with
    | none =>
      obtain rfl : empty = a := by simpa [hm] using hlk
      simp [hct, hemp]
    | some a₀ =>
      obtain rfl : a₀ = a := by simpa [hm] using hlk
      cases d <;> simp [hct]
  · simp [hk]

theorem slot_slice {e : κ × β} (hemp : A.content empty = ∅) :
    {x | (e.1, some x) ∈ A.slotContent m ∪ A.slotAdds e} =
      A.content ((lookup m e.1).getD empty) ∪ A.adds e.2 := by
  ext x
  simp only [slotContent, slotAdds, Set.mem_union, Set.mem_ofPred_eq]
  cases hm : lookup m e.1 <;> simp [hemp]

theorem good_getD (hgd : A.Good empty) (hm : ∀ k a, lookup m k = some a → A.Good a)
    (k : κ) : A.Good ((lookup m k).getD empty) := by
  cases hk : lookup m k with
  | none => exact hgd
  | some a => exact hm k a hk

/-- Entries merged into a map. -/
def slot (empty : α) (hgood : A.Good empty) (hempty : A.content empty = ∅) :
    Accumulator ε (Entries κ α) (κ × β) (κ × Option δ) where
  merge := A.slotMerge empty
  Good m := Entries.Sorted m ∧ ∀ k a, Entries.lookup m k = some a → A.Good a
  Fit e := A.Fit e.2
  Valid e := A.Valid e.2
  content := A.slotContent
  adds := A.slotAdds
  Consistent s := ∀ k, A.Consistent {x | (k, some x) ∈ s}
  lower s t hst hs k := A.lower (fun _ hx => hst hx) (hs k)
  consistent {m} hm k := by
    cases hk : Entries.lookup m k with
    | none =>
      have hnone : {x | (k, some x) ∈ A.slotContent m} = A.content empty := by
        ext x
        simp [slotContent, hk, hempty]
      rw [hnone]
      exact A.consistent hgood
    | some a =>
      have hsome : {x | (k, some x) ∈ A.slotContent m} = A.content a := by
        ext x
        simp [slotContent, hk]
      rw [hsome]
      exact A.consistent (hm.2 k a hk)
  returns {m e} hm hfit hvalid hcons := by
    have hslice := hcons e.1
    rw [A.slot_slice hempty] at hslice
    obtain ⟨a', ha'⟩ := A.returns (A.good_getD hgood hm.2 e.1) hfit hvalid hslice
    exact ⟨Entries.insert m e.1 a', by simp [slotMerge, ha']⟩
  spec {m e m'} hm hfit h := by
    simp only [slotMerge, bind_ok, pure_ok] at h
    obtain ⟨a', ha', rfl⟩ := h
    obtain ⟨hgood', hvalid, hcontent⟩ := A.spec (A.good_getD hgood hm.2 e.1) hfit ha'
    refine ⟨⟨hm.1.insert _ _, fun k a hk => ?_⟩, hvalid,
      A.slotContent_insert hempty rfl hcontent⟩
    rw [Entries.lookup_insert] at hk
    split_ifs at hk with heq
    · exact Option.some.inj hk ▸ hgood'
    · exact hm.2 k a hk
  absorb {m e} hm hfit hvalid hsub := by
    have hkey : (e.1, none) ∈ A.slotContent m := hsub ⟨rfl, by simp⟩
    obtain ⟨a, ha, -⟩ := hkey
    have hadds : A.adds e.2 ⊆ A.content a := by
      intro x hx
      obtain ⟨a₁, ha₁, hmem⟩ : (e.1, some x) ∈ A.slotContent m := hsub ⟨rfl, by simpa using hx⟩
      cases ha.symm.trans ha₁
      exact hmem x rfl
    have hsame := A.absorb (hm.2 _ a ha) hfit hvalid hadds
    simp only [slotMerge, ha, Option.getD_some, hsame, bind_ok, pure_ok, Except.ok.injEq,
      exists_eq_left']
    exact hm.1.insert_of_lookup ha

/-- Maps with the same facts have related values under the same keys. -/
theorem slot_rel {R : α → α → Prop} {m' : Entries κ α}
    (hrel : ∀ a a', A.Good a → A.Good a' → A.content a = A.content a' → R a a')
    (hm : ∀ k a, lookup m k = some a → A.Good a) (hm' : ∀ k a, lookup m' k = some a → A.Good a)
    (h : A.slotContent m = A.slotContent m') (k : κ) : Option.Rel R (lookup m k) (lookup m' k) := by
  have hfac : ∀ d, (∃ a, lookup m k = some a ∧ ∀ x ∈ d, x ∈ A.content a) ↔
      ∃ a, lookup m' k = some a ∧ ∀ x ∈ d, x ∈ A.content a :=
    fun d => iff_of_eq (congrArg ((k, d) ∈ ·) h)
  have hkey := hfac none
  cases hk : lookup m k with
  | none =>
    cases hk' : lookup m' k with
    | none => exact .none
    | some => simp [hk, hk'] at hkey
  | some a =>
    cases hk' : lookup m' k with
    | none => simp [hk, hk'] at hkey
    | some a' =>
      refine .some (hrel a a' (hm k a hk) (hm' k a' hk') (Set.ext fun x => ?_))
      simpa [hk, hk'] using hfac (some x)

end Slot

/-! ### Representations -/

section View

variable {α' : Type v} {β' : Type*}

/-- Collected values and inputs read from representations of them. -/
def view (read : α' → Option α) (write : α → α') (hread : ∀ a, read (write a) = some a)
    (input : β' → Option β) (merge : α' → β' → Except ε α')
    (hmerge : ∀ x y x', merge x y = .ok x' ↔
      ∃ b, input y = some b ∧ ∃ a, read x = some a ∧ ∃ a', A.merge a b = .ok a' ∧ write a' = x') :
    Accumulator ε α' β' δ where
  merge := merge
  Good x := ∃ a, x = write a ∧ A.Good a
  Fit y := ∀ b, input y = some b → A.Fit b
  Valid y := ∃ b, input y = some b ∧ A.Valid b
  content x := {d | ∃ a, read x = some a ∧ d ∈ A.content a}
  adds y := {d | ∃ b, input y = some b ∧ d ∈ A.adds b}
  Consistent := A.Consistent
  lower := A.lower
  consistent := by
    rintro _ ⟨a, rfl, hgood⟩
    simpa [hread] using A.consistent hgood
  returns := by
    rintro _ y ⟨a, rfl, hgood⟩ hfit ⟨b, hb, hvalid⟩ hcons
    obtain ⟨a', ha'⟩ := A.returns hgood (hfit b hb) hvalid (by simpa [hread, hb] using hcons)
    exact ⟨write a', (hmerge ..).2 ⟨b, hb, a, hread a, a', ha', rfl⟩⟩
  spec := by
    rintro _ y x' ⟨a, rfl, hgood⟩ hfit h
    obtain ⟨b, hb, a₁, ha₁, a', ha', rfl⟩ := (hmerge ..).1 h
    cases (hread a).symm.trans ha₁
    obtain ⟨hgood', hvalid, hcontent⟩ := A.spec hgood (hfit b hb) ha'
    refine ⟨⟨a', rfl, hgood'⟩, ⟨b, hb, hvalid⟩, ?_⟩
    simp [hread, hb, hcontent, Set.union_def]
  absorb := by
    rintro _ y ⟨a, rfl, hgood⟩ hfit ⟨b, hb, hvalid⟩ hsub
    have hsame : A.merge a b = .ok a := by
      refine A.absorb hgood (hfit b hb) hvalid fun d hd => ?_
      obtain ⟨a₁, ha₁, hmem⟩ := hsub ⟨b, hb, hd⟩
      cases (hread a).symm.trans ha₁
      exact hmem
    exact (hmerge ..).2 ⟨b, hb, a, hread a, a, hsame, rfl⟩

end View

end Accumulator

end AsteriusIdp
