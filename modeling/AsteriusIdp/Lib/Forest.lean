import Mathlib

/-!
# Forests given by parents

A node either does not exist, is a root, or has a parent: `up k` is `none`, `some none` or
`some (some p)`.  `climb` goes from a node to its root in a bounded number of nodes; it fails
where a parent is missing and where the bound is too small, and so in particular on a cycle.

* `climb_mono`: a larger bound finds the same nodes.
* `climb_extends`: new nodes change nothing for the nodes that were there.
* `Under.trans`: a node under a node under a third is under the third.
* `Labelled`: whole trees carry labels; new leaves (`Labelled.insert`) and new labels on trees
  without one (`Labelled.activate`) keep it so.
-/

namespace AsteriusIdp.Forest

variable {κ : Type*}

/-- The nodes from `k` to its root, if there are at most so many. -/
def climb (up : κ → Option (Option κ)) : ℕ → κ → Option (List κ)
  | 0, _ => none
  | n + 1, k => match up k with
    | none => none
    | some none => some [k]
    | some (some p) => (climb up n p).map (k :: ·)

/-- `k` is `a` or a descendant of it, and its root is at most so many nodes away. -/
def Under (up : κ → Option (Option κ)) (n : ℕ) (k a : κ) : Prop :=
  ∃ ks, climb up n k = some ks ∧ a ∈ ks

/-- The second forest has the nodes of the first, with their parents. -/
def Extends (up up' : κ → Option (Option κ)) : Prop := ∀ k p, up k = some p → up' k = some p

variable {up up' : κ → Option (Option κ)} {n m : ℕ} {k a b p : κ} {ks : List κ}

theorem climb_root (h : up k = some none) (n : ℕ) : climb up (n + 1) k = some [k] := by
  rw [climb, h]

theorem climb_child (h : up k = some (some p)) (n : ℕ) :
    climb up (n + 1) k = (climb up n p).map (k :: ·) := by
  rw [climb, h]

/-- A climb that arrives, step by step. -/
inductive Climbs (up : κ → Option (Option κ)) : ℕ → κ → List κ → Prop
  | root {n : ℕ} {k : κ} : up k = some none → Climbs up (n + 1) k [k]
  | child {n : ℕ} {k p : κ} {rest : List κ} : up k = some (some p) → climb up n p = some rest →
    Climbs up n p rest → Climbs up (n + 1) k (k :: rest)

section

variable (h : climb up n k = some ks)
include h

theorem climbs_of_climb : Climbs up n k ks := by
  induction n generalizing k ks with
  | zero => cases h
  | succ n ih =>
    rw [climb] at h
    split at h
    · cases h
    · cases h
      exact .root ‹_›
    · obtain ⟨rest, hrs, rfl⟩ := Option.map_eq_some_iff.1 h
      exact .child ‹_› hrs (ih hrs)

theorem exists_of_climb : ∃ parent, up k = some parent := by
  cases climbs_of_climb h with
  | root hup => exact ⟨_, hup⟩
  | child hup => exact ⟨_, hup⟩

theorem mem_climb_self : k ∈ ks := by
  cases climbs_of_climb h <;> exact List.mem_cons_self

theorem climb_mono (hle : n ≤ m) : climb up m k = some ks := by
  induction climbs_of_climb h generalizing m with
  | @root n k hup =>
    obtain ⟨m, rfl⟩ := Nat.exists_eq_add_of_le' (Nat.le_of_add_left_le hle)
    exact climb_root hup m
  | @child n k p rest hup hrs _ ih =>
    obtain ⟨_, rfl⟩ := Nat.exists_eq_add_of_le' (Nat.le_of_add_left_le hle)
    rw [climb_child hup, ih hrs (Nat.le_of_succ_le_succ hle), Option.map_some]

/-- From a node on the way the climb goes on as it did. -/
theorem climb_of_mem (ha : a ∈ ks) : ∃ as, climb up n a = some as ∧ as ⊆ ks := by
  induction climbs_of_climb h with
  | root =>
    obtain rfl := List.mem_singleton.1 ha
    exact ⟨[a], h, List.Subset.refl _⟩
  | @child n k p rest hup hrs _ ih =>
    rcases List.mem_cons.1 ha with rfl | ha
    · exact ⟨a :: rest, h, List.Subset.refl _⟩
    · obtain ⟨as, has, hsub⟩ := ih hrs ha
      exact ⟨as, climb_mono has (Nat.le_succ n), List.subset_cons_of_subset k hsub⟩

end

theorem climb_extends (hext : Extends up up') (h : climb up n k = some ks) :
    climb up' n k = some ks := by
  induction climbs_of_climb h with
  | root hup => exact climb_root (hext _ none hup) _
  | child hup hrs _ ih => rw [climb_child (hext _ _ hup), ih hrs, Option.map_some]

theorem Under.refl (h : climb up n k = some ks) : Under up n k k := ⟨ks, h, mem_climb_self h⟩

theorem Under.mono (h : Under up n k a) (hle : n ≤ m) : Under up m k a := by
  obtain ⟨ks, hks, ha⟩ := h
  exact ⟨ks, climb_mono hks hle, ha⟩

theorem Under.trans (h : Under up n k a) (h' : Under up m a b) : Under up n k b := by
  obtain ⟨ks, hks, ha⟩ := h
  obtain ⟨_, has, hb⟩ := h'
  obtain ⟨_, has', hsub⟩ := climb_of_mem hks ha
  -- both climbs from `a` find the same nodes
  have heq := (climb_mono has (Nat.le_max_right n m)).symm.trans
    (climb_mono has' (Nat.le_max_left n m))
  exact ⟨ks, hks, hsub (Option.some.inj heq ▸ hb)⟩

theorem Under.extends (h : Under up n k a) (hext : Extends up up') : Under up' n k a := by
  obtain ⟨ks, hks, ha⟩ := h
  exact ⟨ks, climb_extends hext hks, ha⟩

/-- A node that was there is under the same nodes as before. -/
theorem Under.of_extends (h : Under up' n k a) (hext : Extends up up')
    (hks : climb up m k = some ks) : Under up m k a := by
  obtain ⟨_, hks', ha⟩ := h
  have heq := (climb_mono (climb_extends hext hks) (Nat.le_max_right n m)).symm.trans
    (climb_mono hks' (Nat.le_max_left n m))
  exact ⟨ks, hks, Option.some.inj heq ▸ ha⟩

/-- A child is under what its parent is under, and under itself. -/
theorem under_child (h : Under up (n + 1) k a) (hup : up k = some (some p)) :
    a = k ∨ Under up n p a := by
  obtain ⟨_, hks, ha⟩ := h
  rw [climb_child hup, Option.map_eq_some_iff] at hks
  obtain ⟨rest, hrs, rfl⟩ := hks
  rcases List.mem_cons.1 ha with rfl | ha
  · exact .inl rfl
  · exact .inr ⟨rest, hrs, ha⟩

/-- A root on the way is where the climb ends. -/
theorem getLast_of_mem_root (h : climb up n k = some ks) (ha : a ∈ ks) (hrt : up a = some none) :
    ks.getLast? = some a := by
  induction climbs_of_climb h with
  | root => rw [List.mem_singleton.1 ha, List.getLast?_singleton]
  | child hup hrs _ ih =>
    rcases List.mem_cons.1 ha with rfl | ha
    · cases hup.symm.trans hrt
    · rw [List.getLast?_cons, ih hrs ha, Option.getD_some]

/-- A node is under one root only. -/
theorem Under.root_unique (h : Under up n k a) (h' : Under up n k b) (ha : up a = some none)
    (hb : up b = some none) : a = b := by
  obtain ⟨_, hks, hmem⟩ := h
  obtain ⟨_, hks', hmem'⟩ := h'
  cases hks.symm.trans hks'
  exact Option.some.inj
    ((getLast_of_mem_root hks hmem ha).symm.trans (getLast_of_mem_root hks hmem' hb))

/-! ### Labelled forests -/

section Labelled

variable {τ : Type*}

/-- Whole trees of a forest carry labels: a label sits on a root and on everything below it. -/
structure Labelled (up : κ → Option (Option κ)) (n : ℕ) (label : κ → Option τ)
    (root : τ → Option κ) : Prop where
  rooted : ∀ k p, up k = some p → ∃ ks, climb up n k = some ks
  node : ∀ k t, label k = some t → ∃ p, up k = some p
  inherits : ∀ k p t, up k = some (some p) → label p = some t → label k = some t
  below : ∀ k t, label k = some t → ∃ r, root t = some r ∧ Under up n k r
  top : ∀ t r, root t = some r → up r = some none ∧ label r = some t

variable {label label' : κ → Option τ} {root : τ → Option κ} {t : τ} {r : κ}

/-- What is below a labelled node has its label. -/
theorem Labelled.label_of_under (h : Labelled up n label root) (hun : Under up m k a)
    (ha : label a = some t) : label k = some t := by
  obtain ⟨_, hks, hmem⟩ := hun
  induction climbs_of_climb hks with
  | root => rwa [← List.mem_singleton.1 hmem]
  | child hup hrs _ ih =>
    rcases List.mem_cons.1 hmem with rfl | hmem
    · exact ha
    · exact h.inherits _ _ t hup (ih hrs hmem)

section Insert

variable [DecidableEq κ] {parent : Option κ}

omit [DecidableEq κ] in
theorem ne_of_new (hnew : up k = none) {p : Option κ} (hj : up a = some p) : a ≠ k := by
  rintro rfl
  cases hnew.symm.trans hj

theorem extends_update (hnew : up k = none) : Extends up (Function.update up k (some parent)) := by
  intro _ _ hj
  rw [Function.update_of_ne (ne_of_new hnew hj), hj]

/-- A new leaf under a node that is not too deep, with the label of that node. -/
theorem Labelled.insert (h : Labelled up (n + 1) label root) (hnew : up k = none)
    (hdep : ∀ p, parent = some p → ∃ ks, climb up n p = some ks) :
    Labelled (Function.update up k (some parent)) (n + 1)
      (Function.update label k (parent.bind label)) root := by
  have hext : Extends up (Function.update up k (some parent)) := extends_update hnew
  have hlabel (j : κ) (t : τ) (hj : label j = some t) :
      Function.update label k (parent.bind label) j = some t := by
    obtain ⟨p, hp⟩ := h.node j t hj
    rwa [Function.update_of_ne (ne_of_new hnew hp)]
  have hcli : ∃ ks, climb (Function.update up k (some parent)) (n + 1) k = some ks := by
    cases parent with
    | none => exact ⟨[k], climb_root (Function.update_self ..) n⟩
    | some p =>
      obtain ⟨ks, hks⟩ := hdep p rfl
      refine ⟨k :: ks, ?_⟩
      rw [climb_child (Function.update_self ..), climb_extends hext hks, Option.map_some]
  refine ⟨fun j p hj => ?_, fun j t hj => ?_, fun j p t hj hp => ?_, fun j t hj => ?_,
    fun t r hr => ?_⟩
  · by_cases hjk : j = k
    · exact hjk ▸ hcli
    · rw [Function.update_of_ne hjk] at hj
      obtain ⟨ks, hks⟩ := h.rooted j p hj
      exact ⟨ks, climb_extends hext hks⟩
  · by_cases hjk : j = k
    · exact ⟨parent, hjk ▸ Function.update_self ..⟩
    · rw [Function.update_of_ne hjk] at hj
      obtain ⟨p, hp⟩ := h.node j t hj
      exact ⟨p, hext j p hp⟩
  · by_cases hjk : j = k
    · subst hjk
      rw [Function.update_self, Option.some.injEq] at hj
      subst hj
      rw [Function.update_self]
      obtain ⟨ks, hks⟩ := hdep p rfl
      obtain ⟨q, hq⟩ := exists_of_climb hks
      rwa [Function.update_of_ne (ne_of_new hnew hq)] at hp
    · rw [Function.update_of_ne hjk] at hj ⊢
      -- the parent of an old node is an old node
      obtain ⟨ks, hks⟩ := h.rooted j _ hj
      rw [climb_child hj, Option.map_eq_some_iff] at hks
      obtain ⟨_, hrs, -⟩ := hks
      obtain ⟨_, hq⟩ := exists_of_climb hrs
      rw [Function.update_of_ne (ne_of_new hnew hq)] at hp
      exact h.inherits j p t hj hp
  · by_cases hjk : j = k
    · subst hjk
      rw [Function.update_self, Option.bind_eq_some_iff] at hj
      obtain ⟨p, rfl, hp⟩ := hj
      obtain ⟨r, hr, hun⟩ := h.below p t hp
      obtain ⟨ks, hks⟩ := hdep p rfl
      obtain ⟨_, hks', hmem⟩ := hun
      cases (climb_mono hks (Nat.le_succ n)).symm.trans hks'
      refine ⟨r, hr, j :: ks, ?_, List.mem_cons_of_mem j hmem⟩
      rw [climb_child (Function.update_self ..), climb_extends hext hks, Option.map_some]
    · rw [Function.update_of_ne hjk] at hj
      obtain ⟨r, hr, hun⟩ := h.below j t hj
      exact ⟨r, hr, hun.extends hext⟩
  · obtain ⟨hup, hlab⟩ := h.top t r hr
    exact ⟨hext r none hup, hlabel r t hlab⟩

end Insert

/-- A new label on a tree that has none. -/
theorem Labelled.activate (h : Labelled up n label root) [DecidableEq τ] (ht : root t = none)
    (hr : up r = some none) (hno : label r = none)
    (hke : ∀ k x, label k = some x → label' k = some x)
    (hnew : ∀ k, label k = none → Under up n k r → label' k = some t)
    (hon : ∀ k x, label' k = some x → label k = some x ∨ (x = t ∧ Under up n k r)) :
    Labelled up n label' (Function.update root t (some r)) := by
  -- nothing under the new root had a label
  have hfr (k : κ) (hk : Under up n k r) : label k = none := by
    cases hlab : label k with
    | none => rfl
    | some x =>
      obtain ⟨r', hr', hun⟩ := h.below k x hlab
      obtain ⟨hup', hlab'⟩ := h.top x r' hr'
      rw [hun.root_unique hk hup' hr, hno] at hlab'
      cases hlab'
  refine ⟨h.rooted, fun k x hk => ?_, fun k p x hup hp => ?_, fun k x hk => ?_, fun x r' hr' => ?_⟩
  · rcases hon k x hk with hk | ⟨-, ks, hks, -⟩
    · exact h.node k x hk
    · exact exists_of_climb hks
  · rcases hon p x hp with hp | ⟨rfl, hun⟩
    · exact hke k x (h.inherits k p x hup hp)
    · obtain ⟨ks, hks⟩ := h.rooted k _ hup
      have hk : Under up n k r := by
        have hkp : Under up n k p := by
          cases climbs_of_climb hks with
          | root hrt => cases hup.symm.trans hrt
          | child hq hrs =>
            cases hup.symm.trans hq
            exact ⟨_, hks, List.mem_cons_of_mem k (mem_climb_self hrs)⟩
        exact hkp.trans hun
      exact hnew k (hfr k hk) hk
  · rcases hon k x hk with hk | ⟨rfl, hun⟩
    · obtain ⟨r', hr', hun⟩ := h.below k x hk
      have hne : x ≠ t := by
        rintro rfl
        cases ht.symm.trans hr'
      exact ⟨r', by rwa [Function.update_of_ne hne], hun⟩
    · exact ⟨r, Function.update_self .., hun⟩
  · by_cases hx : x = t
    · subst hx
      rw [Function.update_self, Option.some.injEq] at hr'
      subst hr'
      obtain ⟨_, hks⟩ := h.rooted r none hr
      exact ⟨hr, hnew r hno (.refl hks)⟩
    · rw [Function.update_of_ne hx] at hr'
      obtain ⟨hup, hlab⟩ := h.top x r' hr'
      exact ⟨hup, hke r' x hlab⟩

end Labelled

end AsteriusIdp.Forest
