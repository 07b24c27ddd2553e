import Mathlib

/-!
# Length-prefixed bytes

Byte strings that are made of fields, each written as its length in a fixed number of bytes and
then its bytes.

* `be_inj` : the big-endian digits of a number that fits determine it.
* `beInt_inj` : so do the two's complement digits of an integer.
* `frame_append_inj` : a framed field is told apart from whatever follows it.
* `PrefixFree` : encodings that are told apart from whatever follows them, and how they compose.
* `utf8_injective` : a text is determined by its bytes.
-/

namespace AsteriusIdp

/-- Byte strings. -/
abbrev Bytes := List UInt8

instance neZeroSixteen : NeZero 16 := ⟨by decide⟩

namespace Framing

/-- The last `w` big-endian bytes of `n`. -/
def be : ℕ → ℕ → Bytes
  | 0, _ => []
  | w + 1, n => be w (n / 256) ++ [UInt8.ofNat n]

@[simp] theorem length_be (w n : ℕ) : (be w n).length = w := by
  induction w generalizing n with
  | zero => rfl
  | succ w ih => simp [be, ih]

theorem be_inj {w m n : ℕ} (hm : m < 256 ^ w) (hn : n < 256 ^ w) (h : be w m = be w n) : m = n := by
  induction w generalizing m n with
  | zero =>
    omega
  | succ w ih =>
    obtain ⟨hhi, hlow⟩ := List.append_inj' h rfl
    have hby : m % 256 = n % 256 := by
      have := congrArg UInt8.toNat (List.singleton_inj.1 hlow)
      simpa using this
    have hqu : m / 256 = n / 256 := by
      refine ih ?_ ?_ hhi <;> rw [Nat.div_lt_iff_lt_mul (by decide), ← Nat.pow_succ] <;> assumption
    omega

/-- The `w` big-endian bytes of an integer, in two's complement. -/
def beInt (w : ℕ) (n : ℤ) : Bytes := be w (n % 256 ^ w).toNat

@[simp] theorem length_beInt (w : ℕ) (n : ℤ) : (beInt w n).length = w := length_be ..

theorem beInt_inj {w : ℕ} {m n : ℤ} (hm : -256 ^ w ≤ 2 * m ∧ 2 * m < 256 ^ w)
    (hn : -256 ^ w ≤ 2 * n ∧ 2 * n < 256 ^ w) (h : beInt w m = beInt w n) : m = n := by
  have hpos : (0 : ℤ) < 256 ^ w := Int.pow_pos (by decide)
  have hft : ∀ k : ℤ, (k % 256 ^ w).toNat < 256 ^ w := by
    intro k
    rw [← Int.ofNat_lt, Int.toNat_of_nonneg (Int.emod_nonneg k hpos.ne')]
    exact Int.emod_lt_of_pos k hpos
  have hmod : m ≡ n [ZMOD 256 ^ w] := by
    have heq := be_inj (hft m) (hft n) h
    change m % 256 ^ w = n % 256 ^ w
    omega
  -- congruent numbers that are less than a modulus apart are equal
  have hclo : |n - m| < 256 ^ w := abs_lt.2 ⟨by omega, by omega⟩
  have hz := Int.eq_zero_of_abs_lt_dvd hmod.dvd hclo
  omega

/-- A field: its length in `w` bytes, then its bytes. -/
def frame (w : ℕ) (bytes : Bytes) : Bytes := be w bytes.length ++ bytes

theorem frame_append_inj {w : ℕ} {a b r s : Bytes} (ha : a.length < 256 ^ w)
    (hb : b.length < 256 ^ w) (h : frame w a ++ r = frame w b ++ s) : a = b ∧ r = s := by
  simp only [frame, List.append_assoc] at h
  obtain ⟨hlen, hrs⟩ := List.append_inj h (by simp)
  exact List.append_inj hrs (be_inj ha hb hlen)

/-- An encoding of the values that meet `P` which is told apart from whatever follows it. -/
def PrefixFree {α : Type*} (P : α → Prop) (f : α → Bytes) : Prop :=
  ∀ ⦃a b⦄, P a → P b → ∀ ⦃r s⦄, f a ++ r = f b ++ s → a = b ∧ r = s

namespace PrefixFree

variable {α β : Type*} {P : α → Prop} {Q : β → Prop} {f : α → Bytes} {g : β → Bytes}

theorem inj (h : PrefixFree P f) {a b : α} (ha : P a) (hb : P b) (hab : f a = f b) : a = b :=
  (h ha hb (r := []) (s := []) (by simpa using hab)).1

/-- A framed field of an injective encoding. -/
theorem frame {w : ℕ} (hinj : ∀ a b, P a → P b → f a = f b → a = b)
    (hft : ∀ a, P a → (f a).length < 256 ^ w) : PrefixFree P fun a => Framing.frame w (f a) := by
  intro a b ha hb _ _ h
  obtain ⟨hfld, hrs⟩ := frame_append_inj (hft a ha) (hft b hb) h
  exact ⟨hinj a b ha hb hfld, hrs⟩

/-- One encoding after the other. -/
theorem append (hf : PrefixFree P f) (hg : PrefixFree Q g) {a a' : α} {b b' : β} (ha : P a)
    (ha' : P a') (hb : Q b) (hb' : Q b') {r s : Bytes}
    (h : f a ++ (g b ++ r) = f a' ++ (g b' ++ s)) : a = a' ∧ b = b' ∧ r = s := by
  obtain ⟨haa, hrs⟩ := hf ha ha' h
  exact ⟨haa, hg hb hb' hrs⟩

/-- As many encodings on either side. -/
theorem flatMap (hf : PrefixFree P f) {l l' : List α} (hl : ∀ a ∈ l, P a) (hl' : ∀ a ∈ l', P a)
    (hlen : l.length = l'.length) {r s : Bytes} (h : l.flatMap f ++ r = l'.flatMap f ++ s) :
    l = l' ∧ r = s := by
  induction l generalizing l' with
  | nil =>
    obtain rfl := List.length_eq_zero_iff.1 hlen.symm
    exact ⟨rfl, h⟩
  | cons a l ih =>
    cases l' with
    | nil => exact absurd hlen (by simp)
    | cons a' =>
      simp only [List.flatMap_cons, List.append_assoc] at h
      obtain ⟨rfl, hrs⟩ := hf (hl a List.mem_cons_self) (hl' a' List.mem_cons_self) h
      obtain ⟨rfl, hend⟩ := ih (fun b hb => hl b (List.mem_cons_of_mem _ hb))
        (fun b hb => hl' b (List.mem_cons_of_mem _ hb)) (Nat.succ.inj hlen) hrs
      exact ⟨rfl, hend⟩

/-- A list after its framed count. -/
theorem counted (hf : PrefixFree P f) {w v : ℕ} (hw : v < 256 ^ w) :
    PrefixFree (fun l : List α => (∀ a ∈ l, P a) ∧ l.length < 256 ^ v)
      fun l => Framing.frame w (be v l.length) ++ l.flatMap f := by
  intro l l' hl hl' r s h
  simp only [List.append_assoc] at h
  obtain ⟨hcnt, hrs⟩ := frame_append_inj (by simpa using hw) (by simpa using hw) h
  exact hf.flatMap hl.1 hl'.1 (be_inj hl.2 hl'.2 hcnt) hrs

end PrefixFree

/-- The bytes of a text. -/
def utf8 (s : String) : Bytes := s.toByteArray.data.toList

theorem utf8_injective : Function.Injective utf8 := by
  intro _ _ h
  rw [← String.toByteArray_inj]
  exact ByteArray.ext (Array.ext' h)

/-- A hexadecimal digit. -/
def hexDigit (n : ℕ) : Char := "0123456789abcdef".toList.getD n '0'

/-- Bytes as lower-case hexadecimal text. -/
def hexEncode (bytes : Bytes) : String :=
  String.ofList (bytes.flatMap fun b => [hexDigit (b.toNat / 16), hexDigit (b.toNat % 16)])

end Framing

end AsteriusIdp
