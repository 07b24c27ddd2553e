import AsteriusIdp.Lib.Text

/-!
# Decimal integers

Reading an integer of a bounded width from a text; writing one is `Int.repr`.

* `parse_repr` : what is written is read back.
-/

namespace AsteriusIdp.Decimal

/-- The number that a nonempty list of digits stands for. -/
def digits (l : List Char) : Option ℕ :=
  if l ≠ [] ∧ l.all Char.isDigit then some (Nat.ofDigitChars 10 l 0) else none

/-- An optional sign and digits. -/
def signed : List Char → Option ℤ
  | '-' :: l => (digits l).map fun n => -(n : ℤ)
  | '+' :: l => (digits l).map Int.ofNat
  | l => (digits l).map Int.ofNat

/-- A number that fits in so many bits. -/
def Fits (bits : ℕ) (n : ℤ) : Prop := -2 ^ (bits - 1) ≤ n ∧ n < 2 ^ (bits - 1)

instance (bits : ℕ) (n : ℤ) : Decidable (Fits bits n) := inferInstanceAs (Decidable (_ ∧ _))

/-- Read a two's complement integer. -/
def parse (bits : ℕ) (s : String) : Option ℤ := (signed s.toList).filter fun n => Fits bits n

theorem isDigit_toDigits (n : ℕ) : ∀ c ∈ Nat.toDigits 10 n, c.isDigit = true :=
  fun _ hc => Nat.isDigit_of_mem_toDigits (by decide) (by decide) hc

theorem digits_toDigits (n : ℕ) : digits (Nat.toDigits 10 n) = some n := by
  rw [digits, if_pos ⟨Nat.toDigits_ne_nil, List.all_eq_true.2 (isDigit_toDigits n)⟩,
    Nat.ofDigitChars_ten_toDigits]

theorem repr_injective : Function.Injective Nat.repr := by
  intro m n h
  have hdig := congrArg (digits ∘ String.toList) h
  simpa [digits_toDigits] using hdig

variable {n : ℤ}

theorem mem_repr {c : Char} (h : c ∈ n.repr.toList) : c.isDigit = true ∨ c = '-' := by
  cases n with
  | ofNat m =>
    rw [Int.repr, Nat.toList_repr] at h
    exact .inl (isDigit_toDigits m c h)
  | negSucc =>
    rw [Int.repr, String.toList_append, Nat.toList_repr, List.mem_append] at h
    rcases h with hsg | hdig
    · exact .inr (List.mem_singleton.1 hsg)
    · exact .inl (isDigit_toDigits _ c hdig)

/-- Digits alone have no sign. -/
theorem signed_toDigits (n : ℕ) : signed (Nat.toDigits 10 n) = some (n : ℤ) := by
  have hdig := digits_toDigits n
  have hisD := isDigit_toDigits n
  generalize Nat.toDigits 10 n = l at hdig hisD
  unfold signed
  split
  · exact absurd (hisD '-' List.mem_cons_self) (by decide)
  · exact absurd (hisD '+' List.mem_cons_self) (by decide)
  · rw [hdig]
    rfl

theorem parse_repr {bits : ℕ} (h : Fits bits n) : parse bits n.repr = some n := by
  have hsgd : signed n.repr.toList = some n := by
    cases n with
    | ofNat m =>
      rw [Int.repr, Nat.toList_repr]
      exact signed_toDigits m
    | negSucc m =>
      rw [Int.repr, String.toList_append, Nat.toList_repr]
      show (digits (Nat.toDigits 10 (m + 1))).map (fun n => -(n : ℤ)) = _
      rw [digits_toDigits]
      rfl
  rw [parse, hsgd, Option.filter_some, if_pos (decide_eq_true h)]

theorem fits_of_parse {bits : ℕ} {s : String} (h : parse bits s = some n) : Fits bits n := by
  rw [parse, Option.filter_eq_some_iff] at h
  exact of_decide_eq_true h.2

theorem utf8Size_of_isDigit {c : Char} (h : c.isDigit = true) : c.utf8Size = 1 := by
  rw [Char.isDigit, Bool.and_eq_true, decide_eq_true_iff, decide_eq_true_iff] at h
  rw [Char.utf8Size_eq_one_iff]
  exact UInt32.le_trans h.2 (by decide)

theorem length_repr_le {k : ℕ} (hk : 0 < k) (h : n.natAbs < 10 ^ k) :
    n.repr.toList.length ≤ k + 1 := by
  cases n with
  | ofNat =>
    rw [Int.repr, Nat.toList_repr]
    exact Nat.le_succ_of_le ((Nat.length_toDigits_le_iff (by decide) hk).2 h)
  | negSucc =>
    rw [Int.repr, String.toList_append, Nat.toList_repr, List.length_append, Nat.add_comm]
    exact Nat.add_le_add_right ((Nat.length_toDigits_le_iff (by decide) hk).2 h) 1

/-- A 64-bit integer is written in at most twenty bytes. -/
theorem utf8ByteSize_repr_le (h : Fits 64 n) : n.repr.utf8ByteSize ≤ 20 := by
  have hasc : ∀ c ∈ n.repr.toList, c.utf8Size = 1 := by
    intro c hc
    rcases mem_repr hc with hdig | rfl
    · exact utf8Size_of_isDigit hdig
    · rfl
  have habs : n.natAbs < 10 ^ 19 := by
    unfold Fits at h
    omega
  rw [Text.utf8ByteSize_of_ascii hasc]
  exact length_repr_le (by decide) habs

end AsteriusIdp.Decimal
