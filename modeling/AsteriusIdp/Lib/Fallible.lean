import AsteriusIdp.Lib.Entries

/-!
# Fallible computations

Checks that stop at the first error, as `Except ε`.  A check either refuses (`refuseIf`) or
reads a value that has to be there (`okOr`); a loop over a list is `List.foldlM`, `List.mapM`
or `List.forM`.  The lemmas here invert a computation that returned: what each step of it
returned (`bind_ok`), and what a loop leaves behind.

* `foldlM_invariant` : what every iteration preserves, the loop preserves.
* `foldlM_grows` : a loop that keeps what it has and adds something for each element has it all
  at the end.
* `foldlM_each` : what the iteration at `x` establishes and every later one keeps, holds at the
  end for every `x` of the list.
-/

namespace AsteriusIdp.Fallible

open Entries

universe u v

variable {ε : Type u} {α β σ : Type v}

/-- Stop with `e` when `c` holds. -/
def refuseIf (c : Prop) [Decidable c] (e : ε) : Except ε Unit :=
  if c then .error e else .ok ()

/-- Stop with the error of the value found, if one was found. -/
def refuseSome (o : Option α) (e : α → ε) : Except ε Unit :=
  match o with
  | some a => .error (e a)
  | none => .ok ()

/-- The value of an option, or the error `e`. -/
def okOr (o : Option α) (e : ε) : Except ε α :=
  match o with
  | some a => .ok a
  | none => .error e

@[simp] theorem refuseIf_ok {c : Prop} [Decidable c] {e : ε} {u : Unit} :
    refuseIf c e = .ok u ↔ ¬c := by
  unfold refuseIf
  split_ifs with h <;> simp [h]

@[simp] theorem refuseSome_ok {o : Option α} {e : α → ε} {u : Unit} :
    refuseSome o e = .ok u ↔ o = none := by
  cases o <;> simp [refuseSome]

@[simp] theorem okOr_ok {o : Option α} {e : ε} {a : α} : okOr o e = .ok a ↔ o = some a := by
  cases o <;> simp [okOr]

@[simp] theorem pure_ok {a b : α} : (pure a : Except ε α) = .ok b ↔ a = b := by
  simp [pure, Except.pure]

@[simp] theorem throw_ne_ok {e : ε} {a : α} : (throw e : Except ε α) ≠ .ok a := by
  simp [throw, throwThe]

/-- A sequence of two computations returns when both do. -/
@[simp] theorem bind_ok {x : Except ε α} {f : α → Except ε β} {b : β} :
    (x >>= f) = .ok b ↔ ∃ a, x = .ok a ∧ f a = .ok b := by
  cases x <;> simp [bind, Except.bind]

theorem bind_eq_some {x : Option α} {f : α → Option β} {b : β} :
    (x >>= f) = some b ↔ ∃ a, x = some a ∧ f a = some b := Option.bind_eq_some_iff

@[simp] theorem map_ok {x : Except ε α} {f : α → β} {b : β} :
    (f <$> x) = .ok b ↔ ∃ a, x = .ok a ∧ f a = b := by
  cases x <;> simp [Functor.map, Except.map]

@[simp] theorem mapError_ok {ε' : Type u} {x : Except ε α} {f : ε → ε'} {a : α} :
    x.mapError f = .ok a ↔ x = .ok a := by
  cases x <;> simp [Except.mapError]

/-! ### Loops -/

theorem forM_ok {α : Type*} {f : α → Except ε Unit} {l : List α} {u : Unit} :
    forM l f = .ok u ↔ ∀ x ∈ l, f x = .ok () := by
  induction l with
  | nil => simp
  | cons x l ih =>
    simp only [List.forM_cons, bind_ok, ih, List.forall_mem_cons]
    exact ⟨fun ⟨_, hx, hl⟩ => ⟨hx, hl⟩, fun ⟨hx, hl⟩ => ⟨(), hx, hl⟩⟩

theorem mapM_ok {f : α → Except ε β} {l : List α} {ys : List β} :
    l.mapM f = .ok ys ↔ List.Forall₂ (fun x y => f x = .ok y) l ys := by
  induction l generalizing ys with
  | nil => rw [List.mapM_nil, pure_ok, List.forall₂_nil_left_iff, eq_comm]
  | cons x l ih =>
    simp only [List.mapM_cons, bind_ok, pure_ok, List.forall₂_cons_left_iff]
    constructor
    · rintro ⟨y, hy, ys', hys', rfl⟩
      exact ⟨y, ys', hy, ih.1 hys', rfl⟩
    · rintro ⟨y, ys', hy, hys', rfl⟩
      exact ⟨y, hy, ys', ih.2 hys', rfl⟩

/-- A map stops at the first element it fails on. -/
theorem mapM_eq_error {f : α → Except ε β} {l : List α} {e : ε} :
    l.mapM f = .error e ↔ ∃ x, l.find? (fun x => !(f x).isOk) = some x ∧ f x = .error e := by
  induction l with
  | nil => simp [pure, Except.pure]
  | cons x l ih =>
    rw [List.mapM_cons, List.find?_cons]
    cases hx : f x with
    | error => simp [bind, Except.bind, Except.toBool, hx]
    | ok =>
      simp only [Except.toBool, Bool.not_true] at ih ⊢
      rw [← ih]
      cases l.mapM f <;> simp [bind, Except.bind, pure, Except.pure]

theorem mapM_eq_some {α β : Type*} {f : α → Option β} {l : List α} {ys : List β} :
    l.mapM f = some ys ↔ List.Forall₂ (fun x y => f x = some y) l ys := by
  induction l generalizing ys with
  | nil => simp [eq_comm]
  | cons x l ih =>
    simp only [List.mapM_cons, Option.bind_eq_bind, Option.bind_eq_some_iff, Option.pure_def,
      Option.some.injEq, List.forall₂_cons_left_iff]
    constructor
    · rintro ⟨y, hy, ys', hys', rfl⟩
      exact ⟨y, ys', hy, ih.1 hys', rfl⟩
    · rintro ⟨y, ys', hy, hys', rfl⟩
      exact ⟨y, hy, ys', ih.2 hys', rfl⟩

theorem exists_of_mem_forall₂ {α β : Type*} {R : α → β → Prop} {l : List α} {ys : List β}
    (h : List.Forall₂ R l ys) {y : β} (hy : y ∈ ys) : ∃ x ∈ l, R x y := by
  induction h with
  | nil => simp at hy
  | cons hx _ ih =>
    rcases List.mem_cons.1 hy with rfl | hy
    · exact ⟨_, List.mem_cons_self, hx⟩
    · obtain ⟨x, hmem, hx⟩ := ih hy
      exact ⟨x, List.mem_cons_of_mem _ hmem, hx⟩

/-- A map over a list returns when it returns on every element. -/
theorem exists_mapM_ok {f : α → Except ε β} {l : List α} :
    (∃ ys, l.mapM f = .ok ys) ↔ ∀ x ∈ l, ∃ y, f x = .ok y := by
  simp only [mapM_ok]
  constructor
  · rintro ⟨ys, hys⟩ x hx
    obtain ⟨y, -, hy⟩ := exists_of_mem_forall₂ hys.flip hx
    exact ⟨y, hy⟩
  · intro h
    induction l with
    | nil => exact ⟨[], .nil⟩
    | cons x l ih =>
      obtain ⟨⟨y, hy⟩, hl⟩ := List.forall_mem_cons.1 h
      obtain ⟨ys, hys⟩ := ih hl
      exact ⟨y :: ys, .cons hy hys⟩

/-- Every value of a successful map comes from an element of the list. -/
theorem exists_of_mem_mapM {f : α → Except ε β} {l : List α} {ys : List β}
    (h : l.mapM f = .ok ys) {y : β} (hy : y ∈ ys) : ∃ x ∈ l, f x = .ok y :=
  exists_of_mem_forall₂ (mapM_ok.1 h) hy

/-- A successful map keeps positions. -/
theorem getElem?_of_mapM {f : α → Except ε β} {l : List α} {ys : List β} (h : l.mapM f = .ok ys)
    {i : ℕ} {x : α} (hx : l[i]? = some x) : ∃ y, ys[i]? = some y ∧ f x = .ok y := by
  rw [mapM_ok] at h
  induction h generalizing i with
  | nil => simp at hx
  | cons hxy _ ih =>
    cases i with
    | zero =>
      cases hx
      exact ⟨_, rfl, hxy⟩
    | succ => exact ih hx

/-- A property that every iteration preserves is preserved by the loop. -/
theorem foldlM_invariant {f : σ → α → Except ε σ} {I : σ → Prop} {l : List α} {s s' : σ}
    (h : l.foldlM f s = .ok s') (h₀ : I s)
    (hst : ∀ x ∈ l, ∀ s s', I s → f s x = .ok s' → I s') : I s' := by
  induction l generalizing s with
  | nil =>
    simp only [List.foldlM_nil, pure_ok] at h
    exact h ▸ h₀
  | cons x l ih =>
    simp only [List.foldlM_cons, bind_ok] at h
    obtain ⟨s₁, h₁, h⟩ := h
    exact ih h (hst x List.mem_cons_self s s₁ h₀ h₁)
      fun y hy => hst y (List.mem_cons_of_mem _ hy)

/-- **A loop accumulates.**  Every iteration keeps the facts `C` that hold of the state and adds
the facts `G x` of its own element; `I` is an invariant that the iterations may use. -/
theorem foldlM_grows {τ : Type*} {f : σ → α → Except ε σ} {I : σ → Prop} {C : σ → τ → Prop}
    {G : α → τ → Prop} {l : List α} {s s' : σ} (h : l.foldlM f s = .ok s') (h₀ : I s)
    (hst : ∀ x ∈ l, ∀ s s', I s → f s x = .ok s' →
      I s' ∧ (∀ t, C s t → C s' t) ∧ ∀ t, G x t → C s' t) :
    I s' ∧ (∀ t, C s t → C s' t) ∧ ∀ x ∈ l, ∀ t, G x t → C s' t := by
  induction l generalizing s with
  | nil =>
    simp only [List.foldlM_nil, pure_ok] at h
    subst h
    exact ⟨h₀, fun _ => id, by simp⟩
  | cons x l ih =>
    simp only [List.foldlM_cons, bind_ok] at h
    obtain ⟨s₁, h₁, h⟩ := h
    obtain ⟨hI₁, hold₁, hnew₁⟩ := hst x List.mem_cons_self s s₁ h₀ h₁
    obtain ⟨hI, hold, hnew⟩ := ih h hI₁ fun y hy => hst y (List.mem_cons_of_mem _ hy)
    refine ⟨hI, fun t ht => hold t (hold₁ t ht), fun y hy t ht => ?_⟩
    rcases List.mem_cons.1 hy with rfl | hy
    · exact hold t (hnew₁ t ht)
    · exact hnew y hy t ht

/-- **Every iteration leaves its mark.**  If the iteration at `x` establishes `Q x` and the
iterations at later elements keep it, then `Q x` holds at the end for every `x` of the list.
`I` is an invariant that the iterations may use. -/
theorem foldlM_each {f : σ → α → Except ε σ} {I : σ → Prop} {Q : α → σ → Prop} {l : List α}
    {s s' : σ} (h : l.foldlM f s = .ok s') (h₀ : I s)
    (hinv : ∀ x ∈ l, ∀ s s', I s → f s x = .ok s' → I s')
    (hmk : ∀ x ∈ l, ∀ s s', I s → f s x = .ok s' → Q x s')
    (hke : l.Pairwise fun x y => ∀ s s', I s → f s y = .ok s' → Q x s → Q x s') :
    ∀ x ∈ l, Q x s' := by
  induction l generalizing s with
  | nil => simp
  | cons x l ih =>
    simp only [List.foldlM_cons, bind_ok] at h
    obtain ⟨s₁, h₁, h⟩ := h
    obtain ⟨hx, hl⟩ := List.pairwise_cons.1 hke
    have hI₁ := hinv x List.mem_cons_self s s₁ h₀ h₁
    have hinv' : ∀ y ∈ l, ∀ s s', I s → f s y = .ok s' → I s' :=
      fun y hy => hinv y (List.mem_cons_of_mem _ hy)
    have htl := ih h hI₁ hinv' (fun y hy => hmk y (List.mem_cons_of_mem _ hy)) hl
    have hhd : I s' ∧ Q x s' := by
      refine foldlM_invariant (I := fun s => I s ∧ Q x s) h
        ⟨hI₁, hmk x List.mem_cons_self s s₁ h₀ h₁⟩ ?_
      rintro y hy t t' ⟨hIt, hQ⟩ ht
      exact ⟨hinv' y hy t t' hIt ht, hx y hy t t' hIt ht hQ⟩
    intro y hy
    rcases List.mem_cons.1 hy with rfl | hy
    · exact hhd.2
    · exact htl y hy

/-! ### Maps -/

section MapValues

variable {κ : Type v} [LinearOrder κ] {f : α → Except ε β} {m : Entries κ α} {m' : Entries κ β}

/-- Compute a value for every key. -/
def mapValuesM (f : α → Except ε β) (m : Entries κ α) : Except ε (Entries κ β) :=
  m.mapM fun e => (e.1, ·) <$> f e.2

omit [LinearOrder κ] in
theorem mapValuesM_ok :
    mapValuesM f m = .ok m' ↔ List.Forall₂ (fun e e' => e'.1 = e.1 ∧ f e.2 = .ok e'.2) m m' := by
  rw [mapValuesM, mapM_ok]
  refine iff_of_eq (congrArg (fun R => List.Forall₂ R m m') ?_)
  funext e ⟨k, b⟩
  simp only [map_ok, Prod.mk.injEq, exists_eq_right_right, eq_iff_iff]
  exact ⟨fun h => ⟨h.2.symm, h.1⟩, fun h => ⟨h.2, h.1.symm⟩⟩

/-- The keys are kept and the values are those computed. -/
theorem lookup_mapValuesM (h : mapValuesM f m = .ok m') (k : κ) :
    lookup m' k = (lookup m k).bind fun a => (f a).toOption := by
  rw [mapValuesM_ok] at h
  induction h with
  | nil => rfl
  | cons hhd _ ih =>
    obtain ⟨hkey, hval⟩ := hhd
    rw [lookup_cons, lookup_cons, ih, hkey]
    split_ifs
    · simp [hval, Except.toOption]
    · rfl

theorem sorted_mapValuesM (h : mapValuesM f m = .ok m') (hm : Sorted m) : Sorted m' := by
  rw [mapValuesM_ok] at h
  have hks : m'.map Prod.fst = m.map Prod.fst := by
    induction h with
    | nil => rfl
    | cons hhd _ ih =>
      rw [List.map_cons, List.map_cons, hhd.1, ih (List.pairwise_cons.1 hm).2]
  have hpw : (m'.map Prod.fst).Pairwise (· < ·) := hks ▸ List.pairwise_map.2 hm
  exact List.pairwise_map.1 hpw

omit [LinearOrder κ] in
/-- Every value was computed without an error. -/
theorem exists_mapValuesM (h : ∀ e ∈ m, ∃ b, f e.2 = .ok b) : ∃ m', mapValuesM f m = .ok m' := by
  simp only [mapValuesM_ok]
  induction m with
  | nil => exact ⟨[], .nil⟩
  | cons e m ih =>
    obtain ⟨⟨b, hb⟩, hm⟩ := List.forall_mem_cons.1 h
    obtain ⟨m', hm'⟩ := ih hm
    exact ⟨(e.1, b) :: m', .cons ⟨rfl, hb⟩ hm'⟩

omit [LinearOrder κ] in
theorem exists_of_mapValuesM (h : mapValuesM f m = .ok m') : ∀ e ∈ m, ∃ b, f e.2 = .ok b := by
  rw [mapValuesM_ok] at h
  induction h with
  | nil => simp
  | cons hhd _ ih => exact List.forall_mem_cons.2 ⟨⟨_, hhd.2⟩, ih⟩

end MapValues

end AsteriusIdp.Fallible
