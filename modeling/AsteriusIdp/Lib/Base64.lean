import AsteriusIdp.Lib.Framing
import AsteriusIdp.Lib.Text

/-!
# Base64

The standard alphabet with padding.  Decoding accepts the one canonical text of some bytes: padding
is required and the bits that are left over are zero.

* `decode_encode` : what is encoded is decoded.
-/

namespace AsteriusIdp.Base64

/-- The digits. -/
def alphabet : List Char :=
  "ABCDEFGHIJKLMNOPQRSTUVWXYZabcdefghijklmnopqrstuvwxyz0123456789+/".toList

/-- The character of six bits. -/
def digit (n : ℕ) : Char := alphabet.getD n 'A'

/-- The six bits of a character. -/
def value (c : Char) : Option ℕ := alphabet.findIdx? (· == c)

/-- Three bytes in four digits. -/
def encodeChars : Bytes → List Char
  | [] => []
  | [a] => [digit (a.toNat / 4), digit (a.toNat % 4 * 16), '=', '=']
  | [a, b] =>
    [digit (a.toNat / 4), digit (a.toNat % 4 * 16 + b.toNat / 16), digit (b.toNat % 16 * 4), '=']
  | a :: b :: c :: rest =>
    digit (a.toNat / 4) :: digit (a.toNat % 4 * 16 + b.toNat / 16) ::
      digit (b.toNat % 16 * 4 + c.toNat / 64) :: digit (c.toNat % 64) :: encodeChars rest

/-- The text of bytes. -/
def encode (bytes : Bytes) : String := .ofList (encodeChars bytes)

/-- One, two or three bytes from a group of four characters; the first two only at the end. -/
def decodeGroup (w x y z : Char) (last : Bool) : Option Bytes := do
  let w ← value w
  let x ← value x
  if last && y == '=' && z == '=' then
    if x % 16 = 0 then some [.ofNat (w * 4 + x / 16)] else none
  else
    let y ← value y
    if last && z == '=' then
      if y % 4 = 0 then some [.ofNat (w * 4 + x / 16), .ofNat (x % 16 * 16 + y / 4)] else none
    else
      let z ← value z
      some [.ofNat (w * 4 + x / 16), .ofNat (x % 16 * 16 + y / 4), .ofNat (y % 4 * 64 + z)]

/-- Four digits at a time. -/
def decodeChars : List Char → Option Bytes
  | [] => some []
  | w :: x :: y :: z :: rest => do
    let group ← decodeGroup w x y z rest.isEmpty
    let more ← decodeChars rest
    some (group ++ more)
  | _ => none

/-- The bytes of a text. -/
def decode (s : String) : Option Bytes := decodeChars s.toList

theorem value_digit {n : ℕ} (h : n < 64) : value (digit n) = some n := by
  revert n
  decide +kernel

theorem digit_ne_pad {n : ℕ} (h : n < 64) : digit n ≠ '=' := by
  revert n
  decide +kernel

theorem digit_mem (n : ℕ) : digit n ∈ alphabet := by
  rw [digit, List.getD_eq_getElem?_getD]
  cases hn : alphabet[n]? with
  | none => decide
  | some => exact List.mem_of_getElem? hn

theorem ofNat_eq {a : UInt8} {n : ℕ} (h : n = a.toNat) : UInt8.ofNat n = a := by
  rw [h, UInt8.ofNat_toNat]

theorem decodeChars_encodeChars (bytes : Bytes) : decodeChars (encodeChars bytes) = some bytes := by
  fun_induction encodeChars bytes with
  | case1 => rfl
  | case2 a =>
    have ha := a.toNat_lt
    simp (disch := omega) [decodeChars, decodeGroup, value_digit, -UInt8.ofNat_add]
    exact ofNat_eq (by omega)
  | case3 a b =>
    have ha := a.toNat_lt
    have hb := b.toNat_lt
    simp (disch := omega) [decodeChars, decodeGroup, value_digit, digit_ne_pad, -UInt8.ofNat_add]
    exact ⟨ofNat_eq (by omega), ofNat_eq (by omega)⟩
  | case4 a b c rest ih =>
    have ha := a.toNat_lt
    have hb := b.toNat_lt
    have hc := c.toNat_lt
    simp (disch := omega) [decodeChars, decodeGroup, value_digit, digit_ne_pad,
      ih, -UInt8.ofNat_add]
    exact ⟨ofNat_eq (by omega), ofNat_eq (by omega), ofNat_eq (by omega)⟩

theorem mem_encode {bytes : Bytes} {c : Char} (h : c ∈ (encode bytes).toList) :
    c ∈ '=' :: alphabet := by
  rw [encode, String.toList_ofList] at h
  fun_induction encodeChars bytes with
  | case1 => cases h
  | case2 a =>
    simp only [List.mem_cons, List.not_mem_nil, or_false] at h
    rcases h with rfl | rfl | rfl | rfl <;> simp [digit_mem]
  | case3 a b =>
    simp only [List.mem_cons, List.not_mem_nil, or_false] at h
    rcases h with rfl | rfl | rfl | rfl <;> simp [digit_mem]
  | case4 a b c rest ih =>
    simp only [List.mem_cons] at h
    rcases h with rfl | rfl | rfl | rfl | h
    all_goals first | exact ih h | simp [digit_mem]

@[simp] theorem decode_encode (bytes : Bytes) : decode (encode bytes) = some bytes := by
  rw [decode, encode, String.toList_ofList, decodeChars_encodeChars]

theorem encode_injective : Function.Injective encode := by
  intro _ _ h
  have hdec := congrArg decode h
  rw [decode_encode, decode_encode] at hdec
  exact Option.some.inj hdec

theorem length_encodeChars (bytes : Bytes) :
    (encodeChars bytes).length = 4 * ((bytes.length + 2) / 3) := by
  fun_induction encodeChars bytes with
  | case1 => rfl
  | case2 a => simp
  | case3 a b => simp
  | case4 a b c rest ih =>
    simp only [List.length_cons]
    omega

theorem utf8ByteSize_encode (bytes : Bytes) :
    (encode bytes).utf8ByteSize = 4 * ((bytes.length + 2) / 3) := by
  have hasc : ('=' :: alphabet).all (fun c => c.utf8Size = 1) = true := by decide
  rw [Text.utf8ByteSize_of_ascii fun c hc =>
      of_decide_eq_true (List.all_eq_true.1 hasc c (mem_encode hc)), encode,
    String.toList_ofList, length_encodeChars]

end AsteriusIdp.Base64
