import Mathlib

/-!
# Recording with a budget

A recorder keeps what is pushed to it while its budget lasts, and notes that something was left out
once it is spent.

* `Recorder.pushAll_eq` : what a recorder has after a list was pushed to it.
* `Recorder.cut` : the shares of a budget that several lists get, one after the other; together
  they are a cut of the lists' concatenation (`Recorder.flatten_cut`).
-/

namespace AsteriusIdp

variable {α : Type*}

/-- A log with a budget. -/
structure Recorder (α : Type*) where
  out : List α
  remaining : ℕ
  truncated : Bool

namespace Recorder

/-- Record an item, while there is room. -/
def push (r : Recorder α) (a : α) : Recorder α :=
  if r.remaining = 0 then { r with truncated := true }
  else { r with out := r.out ++ [a], remaining := r.remaining - 1 }

/-- Record items. -/
def pushAll (r : Recorder α) (items : List α) : Recorder α := items.foldl push r

@[simp] theorem pushAll_nil (r : Recorder α) : r.pushAll [] = r := rfl

@[simp] theorem pushAll_cons (r : Recorder α) (a : α) (items : List α) :
    r.pushAll (a :: items) = (r.push a).pushAll items := rfl

theorem pushAll_append (r : Recorder α) (first second : List α) :
    r.pushAll (first ++ second) = (r.pushAll first).pushAll second :=
  List.foldl_append

theorem pushAll_eq (r : Recorder α) (items : List α) :
    r.pushAll items =
      { out := r.out ++ items.take r.remaining
        remaining := r.remaining - items.length
        truncated := r.truncated || decide (r.remaining < items.length) } := by
  induction items generalizing r with
  | nil => simp
  | cons a items ih =>
    rw [pushAll_cons, ih]
    by_cases hz : r.remaining = 0
    · simp [push, hz]
    · obtain ⟨_, hn⟩ := Nat.exists_eq_succ_of_ne_zero hz
      simp [push, hn]

/-- The share of a budget each list gets when they are recorded one after the other. -/
def cut : ℕ → List (List α) → List (List α)
  | _, [] => []
  | budget, items :: rest => items.take budget :: cut (budget - items.length) rest

theorem length_cut (budget : ℕ) (lists : List (List α)) :
    (cut budget lists).length = lists.length := by
  induction lists generalizing budget with
  | nil => rfl
  | cons items rest ih => rw [cut, List.length_cons, List.length_cons, ih]

theorem flatten_cut (budget : ℕ) (lists : List (List α)) :
    (cut budget lists).flatten = lists.flatten.take budget := by
  induction lists generalizing budget with
  | nil => simp [cut]
  | cons items rest ih => rw [cut, List.flatten_cons, List.flatten_cons, List.take_append, ih]

end Recorder

end AsteriusIdp
