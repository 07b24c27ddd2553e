import AsteriusIdp.Lib.Transition

/-!
# Infinite runs

A run that never ends, of a transition system.  "Eventually" and "again and again" along a run are
`∀ᶠ` and `∃ᶠ` over its steps.

* `System.Run.of_le`: what the steps from some point on preserve holds from there on.
* `exists_forall_ge_eq`: a counter that only grows and is bounded comes to rest.
-/

namespace AsteriusIdp.Transition

variable {S L : Type*}

/-- A run without end: its states, and the labels of the steps between them. -/
structure System.Run (A : System S L) where
  state : ℕ → S
  label : ℕ → L
  step : ∀ n, A.step (state n) (label n) (state (n + 1))

namespace System.Run

variable {A : System S L} (run : A.Run)

/-- What the steps from some point on preserve, holds from there on. -/
theorem of_le {I : S → Prop} {n m : ℕ} (hnm : n ≤ m) (hn : I (run.state n))
    (hst : ∀ k, n ≤ k → I (run.state k) → I (run.state (k + 1))) : I (run.state m) := by
  induction m, hnm using Nat.le_induction with
  | base => exact hn
  | succ m hnm ih => exact hst m hnm ih

/-- What every step preserves, holds from the first state on. -/
theorem invariant {I : S → Prop} (hin : I (run.state 0))
    (hst : ∀ s l s', A.step s l s' → I s → I s') (n : ℕ) : I (run.state n) :=
  run.of_le (Nat.zero_le n) hin fun k _ => hst _ _ _ (run.step k)

end System.Run

/-- The states that a step function goes through. -/
def states (f : S → L → S) (s : S) (label : ℕ → L) : ℕ → S
  | 0 => s
  | n + 1 => f (states f s label n) (label n)

/-- A counter that only grows and is bounded comes to rest. -/
theorem exists_forall_ge_eq {f : ℕ → ℕ} (hmo : Monotone f) {b : ℕ} (hb : ∀ n, f n ≤ b) :
    ∃ N, ∀ n ≥ N, f n = f N := by
  have hbdd : BddAbove (Set.range f) := ⟨b, by rintro _ ⟨n, rfl⟩; exact hb n⟩
  obtain ⟨N, hN⟩ := Nat.sSup_mem (Set.range_nonempty f) hbdd
  refine ⟨N, fun n hn => le_antisymm ?_ (hmo hn)⟩
  rw [hN]
  exact le_csSup hbdd ⟨n, rfl⟩

end AsteriusIdp.Transition
