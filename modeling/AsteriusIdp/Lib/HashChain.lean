import Mathlib

/-!
# Hash chains

A list of links, each with the hash of the link before it and its own, which `next` computes from
the former and the content.  The content of a link may be unknown; such a link is only checked for
its place.

* `Chained` : the links lead from one hash to another.
* `Chained.append`, `Chained.split` : chains compose and can be cut anywhere.
* `Chained.unique` : without collisions, a chain is determined by where it ends.
-/

namespace AsteriusIdp.HashChain

variable {E H : Type*}

/-- One link.  The content is absent when it could not be read. -/
@[ext]
structure Link (E H : Type*) where
  content : Option E
  previous : H
  current : H
  deriving DecidableEq

/-- The hash of a link is that of its content, as far as that is known. -/
def Link.Sealed (next : H → E → H) (link : Link E H) : Prop :=
  ∀ e ∈ link.content, next link.previous e = link.current

/-- The links lead from one hash to another. -/
inductive Chained (next : H → E → H) : H → List (Link E H) → H → Prop
  | nil (h : H) : Chained next h [] h
  | cons {link : Link E H} {links : List (Link E H)} {tip : H} :
    link.Sealed next → Chained next link.current links tip →
      Chained next link.previous (link :: links) tip

namespace Chained

variable {next : H → E → H} {a b c : H} {l l' : List (Link E H)} {x : Link E H}

theorem single (h : x.Sealed next) : Chained next x.previous [x] x.current := .cons h (.nil _)

theorem append (h : Chained next a l b) (h' : Chained next b l' c) :
    Chained next a (l ++ l') c := by
  induction h with
  | nil => exact h'
  | cons hsld _ ih => exact .cons hsld (ih h')

/-- A chain can be cut anywhere. -/
theorem split (h : Chained next a (l ++ l') c) : ∃ b, Chained next a l b ∧ Chained next b l' c := by
  induction l generalizing a with
  | nil => exact ⟨a, .nil a, h⟩
  | cons x l ih =>
    cases h with
    | cons hsld hrs =>
      obtain ⟨b, hfst, hsec⟩ := ih hrs
      exact ⟨b, .cons hsld hfst, hsec⟩

theorem eq_of_nil (h : Chained next a [] b) : a = b := by
  cases h
  rfl

/-- The last link of a chain ends it. -/
theorem concat (h : Chained next a (l ++ [x]) c) :
    Chained next a l x.previous ∧ x.Sealed next ∧ x.current = c := by
  obtain ⟨_, hfst, hla⟩ := h.split
  cases hla with
  | cons hsld hrs => exact ⟨hfst, hsld, hrs.eq_of_nil⟩

/-- Where a chain ends is the hash of its last link, when the content of that is known. -/
theorem exists_next_eq (h : Chained next a (l ++ [x]) c) (hrd : x.content.isSome) :
    ∃ e ∈ x.content, next x.previous e = c := by
  obtain ⟨-, hsld, rfl⟩ := h.concat
  obtain ⟨e, he⟩ := Option.isSome_iff_exists.1 hrd
  exact ⟨e, he, hsld e he⟩

/-- **A chain is determined by where it ends**, when its contents are known, no two hashes of the
chains collide and none is the hash they start from. -/
theorem unique {genesis tip : H} (h : Chained next genesis l tip)
    (h' : Chained next genesis l' tip) (hrd : ∀ x ∈ l, x.content.isSome)
    (hrd' : ∀ y ∈ l', y.content.isSome)
    (hco : ∀ x ∈ l, ∀ y ∈ l', ∀ e ∈ x.content, ∀ e' ∈ y.content,
      next x.previous e = next y.previous e' → x.previous = y.previous ∧ e = e')
    (hgen : ∀ x ∈ l, ∀ e ∈ x.content, next x.previous e ≠ genesis)
    (hgen' : ∀ y ∈ l', ∀ e ∈ y.content, next y.previous e ≠ genesis) : l = l' := by
  -- from the ends backwards: the last links agree, and with them where the rest ends
  induction l using List.reverseRecOn generalizing l' tip with
  | nil =>
    obtain rfl := h.eq_of_nil
    rcases List.eq_nil_or_concat l' with rfl | ⟨m', y, rfl⟩
    · rfl
    · rw [List.concat_eq_append] at *
      have hy : y ∈ m' ++ [y] := List.mem_append_right _ List.mem_cons_self
      obtain ⟨e, he, htip⟩ := h'.exists_next_eq (hrd' y hy)
      exact absurd htip (hgen' y hy e he)
  | append_singleton m x ih =>
    have hx : x ∈ m ++ [x] := List.mem_append_right _ List.mem_cons_self
    obtain ⟨e, he, htip⟩ := h.exists_next_eq (hrd x hx)
    rcases List.eq_nil_or_concat l' with rfl | ⟨m', y, rfl⟩
    · obtain rfl := h'.eq_of_nil
      exact absurd htip (hgen x hx e he)
    · rw [List.concat_eq_append] at *
      have hy : y ∈ m' ++ [y] := List.mem_append_right _ List.mem_cons_self
      obtain ⟨e', he', htip'⟩ := h'.exists_next_eq (hrd' y hy)
      obtain ⟨hpv, rfl⟩ := hco x hx y hy e he e' he' (htip.trans htip'.symm)
      obtain ⟨hm, -, hcur⟩ := h.concat
      obtain ⟨hm', -, hcur'⟩ := h'.concat
      have hla : x = y :=
        Link.ext (he.trans he'.symm) hpv (hcur.trans hcur'.symm)
      subst hla
      have hrs : m = m' :=
        ih hm hm' (fun z hz => hrd z (List.mem_append_left _ hz))
          (fun z hz => hrd' z (List.mem_append_left _ hz))
          (fun z hz w hw => hco z (List.mem_append_left _ hz) w (List.mem_append_left _ hw))
          (fun z hz => hgen z (List.mem_append_left _ hz))
          (fun z hz => hgen' z (List.mem_append_left _ hz))
      rw [hrs]

end Chained

end AsteriusIdp.HashChain
