import Mathlib

/-!
# Transition systems

A system is a labelled step relation; a run of it is a path with the labels it went through.

* `System.Path.invariant`, `System.Path.invariant_of_forall`: what every step preserves, a run
  preserves.
* `System.Path.exists_step_of_mem`: a label of a run is a step of it, between a run that leads
  there and one that goes on.
* `System.restrict`: the steps that meet a condition; its runs are the runs all of whose steps do.
* `System.ofPartial`: the system of a partial function; running the function gives a path.
-/

namespace AsteriusIdp.Transition

variable {S L : Type*}

/-- A labelled step relation. -/
structure System (S L : Type*) where
  /-- `step s l s'`: the system can move from `s` to `s'` by `l`. -/
  step : S → L → S → Prop

namespace System

variable {A : System S L}

/-- The system with only those steps that meet a condition. -/
def restrict (A : System S L) (C : S → L → Prop) : System S L where
  step s l s' := A.step s l s' ∧ C s l

/-- The system that moves as a partial function does. -/
def ofPartial (f : S → L → Option S) : System S L where
  step s l s' := f s l = some s'

/-- A run from one state to another, with its labels. -/
inductive Path (A : System S L) : S → List L → S → Prop
  | nil (s : S) : Path A s [] s
  | cons {s s' s'' : S} {l : L} {ls : List L} :
    A.step s l s' → Path A s' ls s'' → Path A s (l :: ls) s''

namespace Path

variable {s s' : S} {ls : List L}

/-- What every step preserves, a run preserves. -/
theorem invariant {I : S → Prop} (hst : ∀ s l s', A.step s l s' → I s → I s') (h : A.Path s ls s') :
    I s → I s' := by
  induction h with
  | nil => exact id
  | cons hl _ ih => exact fun hs => ih (hst _ _ _ hl hs)

/-- What every step with a label of some kind preserves, a run with such labels preserves. -/
theorem invariant_of_forall {I : S → Prop} {C : L → Prop}
    (hst : ∀ s l s', A.step s l s' → C l → I s → I s') (h : A.Path s ls s') (hC : ∀ l ∈ ls, C l) :
    I s → I s' := by
  induction h with
  | nil => exact id
  | cons hl _ ih =>
    intro hs
    exact ih (fun l hmem => hC l (List.mem_cons_of_mem _ hmem))
      (hst _ _ _ hl (hC _ List.mem_cons_self) hs)

/-- A run of one system is a run of a larger one. -/
theorem mono {B : System S L} (hAB : ∀ s l s', A.step s l s' → B.step s l s') (h : A.Path s ls s') :
    B.Path s ls s' := by
  induction h with
  | nil s => exact .nil s
  | cons hl _ ih => exact .cons (hAB _ _ _ hl) ih

theorem append {s'' : S} {ls' : List L} (h : A.Path s ls s') (h' : A.Path s' ls' s'') :
    A.Path s (ls ++ ls') s'' := by
  induction h with
  | nil => exact h'
  | cons hl _ ih => exact .cons hl (ih h')

/-- A label of a run is a step of it. -/
theorem exists_step_of_mem (h : A.Path s ls s') {l : L} (hl : l ∈ ls) :
    ∃ s₁ s₂ ls₁ ls₂, A.Path s ls₁ s₁ ∧ A.step s₁ l s₂ ∧ A.Path s₂ ls₂ s' := by
  induction h with
  | nil => cases hl
  | @cons s _ _ m ms hst hrs ih =>
    rcases List.mem_cons.1 hl with rfl | hmem
    · exact ⟨s, _, [], ms, .nil s, hst, hrs⟩
    · obtain ⟨s₁, s₂, ls₁, ls₂, h₁, h₂, h₃⟩ := ih hmem
      exact ⟨s₁, s₂, m :: ls₁, ls₂, .cons hst h₁, h₂, h₃⟩

theorem of_foldlM {f : S → L → Option S} (h : ls.foldlM f s = some s') :
    (ofPartial f).Path s ls s' := by
  induction ls generalizing s with
  | nil =>
    obtain rfl := Option.some.inj h
    exact .nil s
  | cons l ls ih =>
    rw [List.foldlM_cons, Option.bind_eq_bind, Option.bind_eq_some_iff] at h
    obtain ⟨_, hst, hrs⟩ := h
    exact .cons hst (ih hrs)

end Path

end System

end AsteriusIdp.Transition
