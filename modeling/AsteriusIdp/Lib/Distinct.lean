import Mathlib

/-!
# Appending what is new

A list to which the elements of another one are appended unless they stand in it already.  What it
started with stays in front, in its order.
-/

namespace AsteriusIdp.Distinct

variable {α : Type*} [DecidableEq α]

/-- Append an element that is not there yet. -/
def push (l : List α) (x : α) : List α := if x ∈ l then l else l ++ [x]

/-- Append the elements of a list that are not there yet. -/
def append (l xs : List α) : List α := xs.foldl push l

theorem mem_push {l : List α} {x y : α} : y ∈ push l x ↔ y ∈ l ∨ y = x := by
  unfold push
  split_ifs with hx
  · exact ⟨.inl, fun h => h.elim id fun heq => heq ▸ hx⟩
  · simp

theorem mem_append {l xs : List α} {y : α} : y ∈ append l xs ↔ y ∈ l ∨ y ∈ xs := by
  induction xs generalizing l with
  | nil => simp [append]
  | cons x xs ih =>
    have hst : append l (x :: xs) = append (push l x) xs := rfl
    rw [hst, ih, mem_push, List.mem_cons, or_assoc]

theorem exists_append (l xs : List α) : ∃ added, append l xs = l ++ added := by
  induction xs generalizing l with
  | nil => exact ⟨[], by simp [append]⟩
  | cons x xs ih =>
    obtain ⟨added, hadd⟩ := ih (push l x)
    have hst : append l (x :: xs) = push l x ++ added := hadd
    rw [hst]
    unfold push
    split_ifs with hx
    · exact ⟨added, rfl⟩
    · exact ⟨x :: added, by simp⟩

/-- Nothing is appended when everything is there. -/
theorem append_of_subset {l xs : List α} (h : ∀ x ∈ xs, x ∈ l) : append l xs = l := by
  induction xs with
  | nil => rfl
  | cons x xs ih =>
    obtain ⟨hx, hxs⟩ := List.forall_mem_cons.1 h
    have hst : append l (x :: xs) = append (push l x) xs := rfl
    rw [hst, push, if_pos hx, ih hxs]

theorem append_concat (l xs ys : List α) : append l (xs ++ ys) = append (append l xs) ys :=
  List.foldl_append

theorem append_append (l xs : List α) : append (append l xs) xs = append l xs :=
  append_of_subset fun _ hx => mem_append.2 (.inr hx)

theorem append_nodup {l xs : List α} (h : l.Nodup) : (append l xs).Nodup := by
  induction xs generalizing l with
  | nil => exact h
  | cons x xs ih =>
    refine ih ?_
    unfold push
    split_ifs with hx
    · exact h
    · refine List.nodup_append.2 ⟨h, List.nodup_singleton x, fun y hy z hz => ?_⟩
      rw [List.mem_singleton.1 hz]
      exact ne_of_mem_of_not_mem hy hx

theorem append_nil_of_nodup {l : List α} (h : l.Nodup) : append [] l = l := by
  -- each element is new when it is reached
  have hgen : ∀ (front : List α), (front ++ l).Nodup → append front l = front ++ l := by
    induction l with
    | nil => simp [append]
    | cons x l ih =>
      intro front hnod
      have hx : x ∉ front := fun hmem =>
        (List.nodup_append.1 hnod).2.2 x hmem x List.mem_cons_self rfl
      have hst : append front (x :: l) = append (push front x) l := rfl
      rw [hst, push, if_neg hx, ih (List.nodup_cons.1 h).2 _ (by simpa using hnod)]
      simp
  simpa using hgen [] (by simpa using h)

/-- Appending the same elements a second time changes nothing, also where the list is cut. -/
theorem take_append_take (n : ℕ) (xs ys : List α) :
    (append [] ((append [] (xs ++ ys)).take n ++ ys)).take n = (append [] (xs ++ ys)).take n := by
  have hnod : (append [] (xs ++ ys)).Nodup := append_nodup List.nodup_nil
  rw [append_concat, append_nil_of_nodup (hnod.sublist (List.take_sublist n _))]
  rcases Nat.lt_or_ge n (append [] (xs ++ ys)).length with hlt | hle
  · obtain ⟨_, hadd⟩ := exists_append ((append [] (xs ++ ys)).take n) ys
    have hlen : ((append [] (xs ++ ys)).take n).length = n := by simp [hlt.le]
    rw [hadd, List.take_append_of_le_length hlen.ge, List.take_of_length_le hlen.le]
  · have hall : ∀ y ∈ ys, y ∈ append [] (xs ++ ys) := fun y hy =>
      mem_append.2 (.inr (List.mem_append_right _ hy))
    rw [List.take_of_length_le hle, append_of_subset hall, List.take_of_length_le hle]

end AsteriusIdp.Distinct
