import AsteriusIdp.Json.Serde
import AsteriusIdp.Lib.Fallible

/-!
# A text form for documents

An encoder and a decoder of documents that meet the assumptions of `Serde` (`Serde.compact`).  The
texts are those of JSON without blanks, except that a fraction is written out.  The decoder counts
down a bound; the length of the text is always enough (`read_write`).
-/

namespace AsteriusIdp

namespace Json

open Fallible Entries

/-! ### Writing -/

/-- Decimal digits. -/
def writeNat (n : ℕ) : List Char := Nat.toDigits 10 n

/-- With a sign. -/
def writeInt (z : ℤ) : List Char := (if z < 0 then '-' else '+') :: writeNat z.natAbs

/-- A number. -/
def writeNumber : Number → List Char
  | .posInt n => writeNat n.toNat
  | .negInt z => writeInt z.1.toInt
  | .float q => '.' :: writeInt q.1.num ++ '/' :: writeNat q.1.den

/-- The characters of a text up to and with its closing quote. -/
def writeChars : List Char → List Char
  | [] => ['"']
  | c :: cs => if c = '"' ∨ c = '\\' then '\\' :: c :: writeChars cs else c :: writeChars cs

/-- A string in quotes. -/
def writeStr (s : String) : List Char := '"' :: writeChars s.toList

mutual

/-- A value as text. -/
def write : Json → List Char
  | null => ['n', 'u', 'l', 'l']
  | bool true => ['t', 'r', 'u', 'e']
  | bool false => ['f', 'a', 'l', 's', 'e']
  | num n => writeNumber n
  | str s => writeStr s
  | arr [] => ['[', ']']
  | arr (v :: vs) => '[' :: (write v ++ writeItems vs)
  | obj [] => ['\x7b', '\x7d']
  | obj ((name, v) :: ms) => '\x7b' :: (writeStr name ++ ':' :: (write v ++ writeMembers ms))

/-- The items after the first one. -/
def writeItems : List Json → List Char
  | [] => [']']
  | v :: vs => ',' :: (write v ++ writeItems vs)

/-- The members after the first one. -/
def writeMembers : List (String × Json) → List Char
  | [] => ['\x7d']
  | (name, v) :: ms => ',' :: (writeStr name ++ ':' :: (write v ++ writeMembers ms))

end

/-! ### Reading -/

/-- Read digits. -/
def readNat (cs : List Char) : ℕ × List Char :=
  (Nat.ofDigitChars 10 (cs.takeWhile Char.isDigit) 0, cs.dropWhile Char.isDigit)

/-- Read a signed number. -/
def readInt : List Char → Option (ℤ × List Char)
  | '-' :: cs => some (-(readNat cs).1, (readNat cs).2)
  | '+' :: cs => some ((readNat cs).1, (readNat cs).2)
  | _ => none

/-- Read a fraction. -/
def readFraction (cs : List Char) : Option ({q : ℚ // IsDouble q} × List Char) := do
  let (z, rest) ← readInt cs
  match rest with
  | '/' :: rest =>
    let q := mkRat z (readNat rest).1
    if h : IsDouble q then some (⟨q, h⟩, (readNat rest).2) else none
  | _ => none

/-- Read up to the quote. -/
def readChars : List Char → Option (List Char × List Char)
  | [] => none
  | '"' :: rest => some ([], rest)
  | '\\' :: c :: cs => (readChars cs).map fun (text, rest) => (c :: text, rest)
  | c :: cs => (readChars cs).map fun (text, rest) => (c :: text, rest)

/-- Read a member name. -/
def readName : List Char → Option (String × List Char)
  | '"' :: cs => do
    let (text, rest) ← readChars cs
    match rest with
    | ':' :: rest => some (String.ofList text, rest)
    | _ => none
  | _ => none

mutual

/-- Read a value within a bound. -/
def read : ℕ → List Char → Option (Json × List Char)
  | 0, _ => none
  | _ + 1, 'n' :: 'u' :: 'l' :: 'l' :: rest => some (null, rest)
  | _ + 1, 't' :: 'r' :: 'u' :: 'e' :: rest => some (bool true, rest)
  | _ + 1, 'f' :: 'a' :: 'l' :: 's' :: 'e' :: rest => some (bool false, rest)
  | _ + 1, '.' :: cs => (readFraction cs).map fun (q, rest) => (num (.float q), rest)
  | _ + 1, '"' :: cs => (readChars cs).map fun (text, rest) => (str (String.ofList text), rest)
  | _ + 1, '[' :: ']' :: rest => some (arr [], rest)
  | bound + 1, '[' :: cs => do
    let (v, rest) ← read bound cs
    let (vs, rest) ← readItems bound rest
    some (arr (v :: vs), rest)
  | _ + 1, '\x7b' :: '\x7d' :: rest => some (obj [], rest)
  | bound + 1, '\x7b' :: cs => do
    let (name, rest) ← readName cs
    let (v, rest) ← read bound rest
    let (ms, rest) ← readMembers bound rest
    some (obj (Entries.collect ((name, v) :: ms)), rest)
  | _ + 1, c :: cs =>
    if c.isDigit then some (num (.posInt (.ofNat (readNat (c :: cs)).1)), (readNat (c :: cs)).2)
    else do
      let (z, rest) ← readInt (c :: cs)
      if h : .ofInt z < 0 then some (num (.negInt ⟨_, h⟩), rest) else none
  | _ + 1, [] => none

/-- Read up to the bracket. -/
def readItems : ℕ → List Char → Option (List Json × List Char)
  | 0, _ => none
  | _ + 1, ']' :: rest => some ([], rest)
  | bound + 1, ',' :: cs => do
    let (v, rest) ← read bound cs
    let (vs, rest) ← readItems bound rest
    some (v :: vs, rest)
  | _ + 1, _ => none

/-- Read up to the brace. -/
def readMembers : ℕ → List Char → Option (List (String × Json) × List Char)
  | 0, _ => none
  | _ + 1, '\x7d' :: rest => some ([], rest)
  | bound + 1, ',' :: cs => do
    let (name, rest) ← readName cs
    let (v, rest) ← read bound rest
    let (ms, rest) ← readMembers bound rest
    some ((name, v) :: ms, rest)
  | _ + 1, _ => none

end

/-! ### Reading back -/

/-- A text after which no number goes on. -/
def Ends (rest : List Char) : Prop := ∀ c ∈ rest.head?, c.isDigit = false

theorem isDigit_of_mem_writeNat {n : ℕ} {c : Char} (h : c ∈ writeNat n) : c.isDigit = true :=
  Nat.isDigit_of_mem_toDigits (by decide) (by decide) h

variable {rest : List Char}

theorem readNat_writeNat (n : ℕ) (h : Ends rest) : readNat (writeNat n ++ rest) = (n, rest) := by
  have hdig : ∀ c ∈ writeNat n, c.isDigit = true := fun _ => isDigit_of_mem_writeNat
  have hta : rest.takeWhile Char.isDigit = [] ∧ rest.dropWhile Char.isDigit = rest := by
    cases rest with
    | nil => simp
    | cons c =>
      have hc := h c (by simp)
      simp [hc]
  rw [readNat, List.takeWhile_append_of_pos hdig, List.dropWhile_append_of_pos hdig, hta.1,
    hta.2, List.append_nil, writeNat, Nat.ofDigitChars_ten_toDigits]

theorem readInt_writeInt (z : ℤ) (h : Ends rest) :
    readInt (writeInt z ++ rest) = some (z, rest) := by
  unfold writeInt
  split_ifs
  · simp only [List.cons_append, readInt, readNat_writeNat _ h, Option.some.injEq, Prod.mk.injEq,
      and_true]
    omega
  · simp only [List.cons_append, readInt, readNat_writeNat _ h, Option.some.injEq, Prod.mk.injEq,
      and_true]
    omega

theorem readFraction_write (q : {q : ℚ // IsDouble q}) (h : Ends rest) :
    readFraction (writeInt q.1.num ++ '/' :: writeNat q.1.den ++ rest) = some (q, rest) := by
  have hsla : Ends ('/' :: (writeNat q.1.den ++ rest)) := by simp [Ends]
  simp [readFraction, readInt_writeInt _ hsla, readNat_writeNat _ h, q.2]

theorem readChars_writeChars (text rest : List Char) :
    readChars (writeChars text ++ rest) = some (text, rest) := by
  induction text with
  | nil => rfl
  | cons c cs ih =>
    unfold writeChars
    split_ifs with hc
    · simp [readChars, ih]
    · simp only [not_or] at hc
      simp [readChars, ih, hc]

theorem readName_writeStr (name : String) (rest : List Char) :
    readName (writeStr name ++ ':' :: rest) = some (name, rest) := by
  simp [readName, writeStr, readChars_writeChars]

theorem exists_writeNat (n : ℕ) : ∃ c cs, writeNat n = c :: cs ∧ c.isDigit = true := by
  obtain ⟨c, cs, hcs⟩ := List.exists_cons_of_ne_nil (l := writeNat n) Nat.toDigits_ne_nil
  exact ⟨c, cs, hcs, isDigit_of_mem_writeNat (hcs ▸ List.mem_cons_self)⟩

theorem read_digit {bound : ℕ} {c : Char} {cs : List Char} (h : c.isDigit = true) :
    read (bound + 1) (c :: cs) =
      some (num (.posInt (.ofNat (readNat (c :: cs)).1)), (readNat (c :: cs)).2) := by
  unfold read
  split <;> simp_all

theorem read_writeNumber {bound : ℕ} (n : Number) (h : Ends rest) :
    read (bound + 1) (writeNumber n ++ rest) = some (num n, rest) := by
  cases n with
  | posInt n =>
    obtain ⟨_, _, hcs, hc⟩ := exists_writeNat n.toNat
    have hrd := readNat_writeNat n.toNat h
    simp only [writeNumber]
    rw [hcs, List.cons_append] at hrd ⊢
    rw [read_digit hc, hrd, UInt64.ofNat_toNat]
  | negInt z =>
    have hrd := readInt_writeInt z.1.toInt h
    have hz : z.1.toInt < 0 := Int64.lt_iff_toInt_lt.1 z.2
    simp only [writeInt, hz, if_true, List.cons_append] at hrd
    simp [writeNumber, writeInt, hz, read, hrd, z.2]
  | float q =>
    have hrd := readFraction_write q h
    simp only [List.cons_append, List.append_assoc] at hrd
    simp [writeNumber, read, hrd]

/-- No value is written with a closing bracket first. -/
theorem exists_write (v : Json) : ∃ c cs, write v = c :: cs ∧ c ≠ ']' := by
  cases v with
  | num n =>
    cases n with
    | posInt n =>
      obtain ⟨c, cs, hcs, hc⟩ := exists_writeNat n.toNat
      refine ⟨c, cs, by simp [write, writeNumber, hcs], ?_⟩
      rintro rfl
      exact absurd hc (by decide)
    | negInt =>
      refine ⟨_, _, by rw [write, writeNumber, writeInt], ?_⟩
      split_ifs <;> decide
    | float => exact ⟨_, _, rfl, by decide⟩
  | bool b => cases b <;> exact ⟨_, _, rfl, by decide⟩
  | arr vs => cases vs <;> exact ⟨_, _, by rw [write], by decide⟩
  | obj ms => rcases ms with _ | ⟨⟨_, _⟩, _⟩ <;> exact ⟨_, _, by rw [write], by decide⟩
  | _ => exact ⟨_, _, rfl, by decide⟩

theorem ends_writeItems (vs : List Json) (rest : List Char) : Ends (writeItems vs ++ rest) := by
  cases vs <;> simp [writeItems, Ends]

theorem ends_writeMembers (ms : List (String × Json)) (rest : List Char) :
    Ends (writeMembers ms ++ rest) := by
  rcases ms with _ | ⟨⟨_, _⟩, _⟩ <;> simp [writeMembers, Ends]

mutual

/-- **Texts read back**, with the length of the text as the bound. -/
theorem read_write : (v : Json) → v.WellFormed → (bound : ℕ) → (rest : List Char) → Ends rest →
    (write v).length ≤ bound → read bound (write v ++ rest) = some (v, rest)
  | v, hv, 0, rest, _, hbd => by
    obtain ⟨c, cs, hcs, -⟩ := exists_write v
    simp [hcs] at hbd
  | null, _, bound + 1, rest, _, _ => by simp [write, read]
  | bool true, _, bound + 1, rest, _, _ => by simp [write, read]
  | bool false, _, bound + 1, rest, _, _ => by simp [write, read]
  | num n, _, bound + 1, rest, hrs, _ => by rw [write, read_writeNumber n hrs]
  | str s, _, bound + 1, rest, _, _ => by simp [write, writeStr, read, readChars_writeChars]
  | arr [], _, bound + 1, rest, _, _ => by simp [write, read]
  | arr (v :: vs), hv, bound + 1, rest, _, hbd => by
    simp only [write, List.length_cons, List.length_append] at hbd
    obtain ⟨hhd, htl⟩ : v.WellFormed ∧ ∀ w ∈ vs, w.WellFormed := by
      cases hv with
      | arr h => exact List.forall_mem_cons.1 h
    have hrd := read_write v hhd bound (writeItems vs ++ rest) (ends_writeItems vs rest)
      (by omega)
    have hit := readItems_writeItems vs htl bound rest (by omega)
    obtain ⟨c, cs, hcs, hc⟩ := exists_write v
    rw [hcs] at hrd
    simp only [List.cons_append] at hrd
    simp [write, hcs, read, hc, hrd, hit]
  | obj [], _, bound + 1, rest, _, _ => by simp [write, read]
  | obj ((name, v) :: ms), hv, bound + 1, rest, _, hbd => by
    simp only [write, writeStr, List.length_cons, List.length_append] at hbd
    cases hv with
    | obj hso h =>
      obtain ⟨hhd, htl⟩ := List.forall_mem_cons.1 h
      have hrd := read_write v hhd bound (writeMembers ms ++ rest) (ends_writeMembers ms rest)
        (by omega)
      have hms := readMembers_writeMembers ms htl bound rest (by omega)
      have hnm := readName_writeStr name (write v ++ (writeMembers ms ++ rest))
      simp only [writeStr, List.cons_append] at hnm
      simp [write, writeStr, read, hnm, hrd, hms, hso.collect_eq]

theorem readItems_writeItems : (vs : List Json) → (∀ w ∈ vs, w.WellFormed) → (bound : ℕ) →
    (rest : List Char) → (writeItems vs).length ≤ bound →
    readItems bound (writeItems vs ++ rest) = some (vs, rest)
  | [], _, 0, rest, hbd => by simp [writeItems] at hbd
  | _ :: _, _, 0, rest, hbd => by simp [writeItems] at hbd
  | [], _, bound + 1, rest, _ => by simp [writeItems, readItems]
  | v :: vs, h, bound + 1, rest, hbd => by
    simp only [writeItems, List.length_cons, List.length_append] at hbd
    obtain ⟨hhd, htl⟩ := List.forall_mem_cons.1 h
    have hrd := read_write v hhd bound (writeItems vs ++ rest) (ends_writeItems vs rest)
      (by omega)
    have hit := readItems_writeItems vs htl bound rest (by omega)
    simp [writeItems, readItems, hrd, hit]

theorem readMembers_writeMembers : (ms : List (String × Json)) → (∀ m ∈ ms, m.2.WellFormed) →
    (bound : ℕ) → (rest : List Char) → (writeMembers ms).length ≤ bound →
    readMembers bound (writeMembers ms ++ rest) = some (ms, rest)
  | [], _, 0, rest, hbd => by simp [writeMembers] at hbd
  | (_, _) :: _, _, 0, rest, hbd => by simp [writeMembers] at hbd
  | [], _, bound + 1, rest, _ => by simp [writeMembers, readMembers]
  | (name, v) :: ms, h, bound + 1, rest, hbd => by
    simp only [writeMembers, List.length_cons, List.length_append] at hbd
    obtain ⟨hhd, htl⟩ := List.forall_mem_cons.1 h
    have hrd := read_write v hhd bound (writeMembers ms ++ rest) (ends_writeMembers ms rest)
      (by omega)
    have hms := readMembers_writeMembers ms htl bound rest (by omega)
    simp [writeMembers, readMembers, readName_writeStr, hrd, hms]

end

/-! ### What is read is well formed -/

theorem wellFormed_of_read (bound : ℕ) :
    (∀ cs v rest, read bound cs = some (v, rest) → v.WellFormed) ∧
      (∀ cs vs rest, readItems bound cs = some (vs, rest) → ∀ v ∈ vs, v.WellFormed) ∧
      ∀ cs ms rest, readMembers bound cs = some (ms, rest) → ∀ m ∈ ms, m.2.WellFormed := by
  induction bound with
  | zero => simp [read, readItems, readMembers]
  | succ bound ih =>
    obtain ⟨hval, hit, hme⟩ := ih
    refine ⟨fun cs v rest h => ?_, fun cs vs rest h => ?_, fun cs ms rest h => ?_⟩
    · unfold read at h
      split at h <;> rename_i hbd
      case h_5 | h_6 =>
        obtain ⟨_, -, heq⟩ := Option.map_eq_some_iff.1 h
        cases heq
        constructor
      case h_8 =>
        cases hbd
        simp only [bind_eq_some, Option.some.injEq, Prod.mk.injEq] at h
        obtain ⟨⟨v, _⟩, hv, ⟨vs, _⟩, hvs, rfl, rfl⟩ := h
        exact .arr (List.forall_mem_cons.2 ⟨hval _ _ _ hv, hit _ _ _ hvs⟩)
      case h_10 =>
        cases hbd
        simp only [bind_eq_some, Option.some.injEq, Prod.mk.injEq] at h
        obtain ⟨⟨name, _⟩, -, ⟨v, _⟩, hv, ⟨ms, _⟩, hms, rfl, rfl⟩ := h
        have hrd : ∀ m ∈ (name, v) :: ms, m.2.WellFormed :=
          List.forall_mem_cons.2 ⟨hval _ _ _ hv, hme _ _ _ hms⟩
        exact .obj (Sorted.collect _) fun m hm => hrd m (mem_of_mem_collect hm)
      case h_11 =>
        split_ifs at h
        · cases h
          constructor
        · obtain ⟨_, -, h⟩ := bind_eq_some.1 h
          dsimp only at h
          split_ifs at h
          cases h
          constructor
      case h_7 =>
        cases h
        exact .arr (by simp)
      case h_9 =>
        cases h
        exact .obj Sorted.nil (by simp)
      all_goals
        cases h
        try constructor
    · unfold readItems at h
      split at h <;> rename_i hbd
      case h_3 =>
        cases hbd
        simp only [bind_eq_some, Option.some.injEq, Prod.mk.injEq] at h
        obtain ⟨⟨v, _⟩, hv, ⟨vs, _⟩, hvs, rfl, rfl⟩ := h
        exact List.forall_mem_cons.2 ⟨hval _ _ _ hv, hit _ _ _ hvs⟩
      all_goals
        cases h
        try simp
    · unfold readMembers at h
      split at h <;> rename_i hbd
      case h_3 =>
        cases hbd
        simp only [bind_eq_some, Option.some.injEq, Prod.mk.injEq] at h
        obtain ⟨⟨name, _⟩, -, ⟨v, _⟩, hv, ⟨ms, _⟩, hms, rfl, rfl⟩ := h
        exact List.forall_mem_cons.2 ⟨hval _ _ _ hv, hme _ _ _ hms⟩
      all_goals
        cases h
        try simp

/-- The document a whole text stands for. -/
def ofText (text : String) : Option Json :=
  match read text.length text.toList with
  | some (v, []) => some v
  | _ => none

end Json

/-- The compact form of documents. -/
def Serde.compact : Serde where
  toString v := String.ofList v.write
  fromStr := Json.ofText
  wellFormed_of_fromStr := by
    intro raw v h
    unfold Json.ofText at h
    split at h
    · next hread =>
      cases h
      exact (Json.wellFormed_of_read _).1 _ _ _ hread
    · cases h
  fromStr_toString := by
    intro v hv
    have hread := Json.read_write v hv.wellFormed v.write.length [] (by simp [Json.Ends]) le_rfl
    rw [List.append_nil] at hread
    simp [Json.ofText, hread]

end AsteriusIdp
