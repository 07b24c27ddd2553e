import Mathlib

/-!
# Text

The string operations the model needs, as structural recursions over the characters, so that
they evaluate on literals.  Letter case is ASCII only, white space is the Unicode property.
-/

namespace AsteriusIdp.Text

/-- The Unicode `White_Space` property. -/
def isWhitespace (c : Char) : Bool :=
  let n := c.toNat
  (9 ≤ n && n ≤ 13) || n == 32 || n == 0x85 || n == 0xA0 || n == 0x1680 ||
    (0x2000 ≤ n && n ≤ 0x200A) || n == 0x2028 || n == 0x2029 || n == 0x202F || n == 0x205F ||
    n == 0x3000

/-- The pieces between the occurrences of a separator, empty ones included. -/
def split (sep : Char) (s : String) : List String := (s.toList.splitOn sep).map String.ofList

/-- The words between runs of white space. -/
def splitWhitespace (s : String) : List String :=
  ((s.toList.splitOnP isWhitespace).filter fun w => !w.isEmpty).map String.ofList

/-- The texts with a separator between them. -/
def join (sep : String) (l : List String) : String := sep.intercalate l

/-- The characters with the ASCII capitals lowered. -/
def lower (s : String) : List Char := s.toList.map Char.toLower

/-- Equality up to ASCII case. -/
def eqIgnoreCase (a b : String) : Bool := lower a == lower b

/-- The text without the separators at its end. -/
def trimEnd (sep : Char) (s : String) : String :=
  String.ofList (s.toList.reverse.dropWhile (· == sep)).reverse

/-- The first character. -/
def startsWith (c : Char) (s : String) : Bool := s.toList.head? == some c

/-- The text with a character in front. -/
def cons (c : Char) (s : String) : String := String.ofList (c :: s.toList)

/-- What follows the character `c` at the front of a text. -/
def strip (c : Char) (s : String) : Option String :=
  match s.toList with
  | [] => none
  | d :: t => if d = c then some (String.ofList t) else none

variable {c : Char} {s t a : String}

@[simp] theorem strip_eq_some : strip c s = some t ↔ s = cons c t := by
  rw [strip, cons]
  constructor
  · intro h
    split at h
    · cases h
    · rename_i d l hs
      split_ifs at h with hd
      simp only [Option.some.injEq] at h
      rw [← h, ← hd, String.toList_ofList, ← hs, String.ofList_toList]
  · rintro rfl
    simp

theorem strip_eq_none : strip c s = none ↔ startsWith c s = false := by
  unfold strip startsWith
  split
  · next h => simp [h]
  · next d l h => simp [h]

@[simp] theorem startsWith_cons (c : Char) (s : String) : startsWith c (cons c s) = true := by
  simp [startsWith, cons]

theorem cons_injective (c : Char) : Function.Injective (cons c) := by
  intro _ _ h
  have hls := congrArg String.toList h
  simp only [cons, String.toList_ofList, List.cons.injEq, true_and] at hls
  exact String.toList_inj.1 hls

theorem cons_lt_cons : cons c s < cons c t ↔ s < t := by
  simp only [String.lt_iff_toList_lt, cons, String.toList_ofList, List.cons_lt_cons_iff,
    lt_irrefl, false_or, true_and]

/-- Two texts with a colon between them. -/
def qualified (a b : String) : String := a ++ ":" ++ b

/-- The text starts with another one. -/
def opensWith (start s : String) : Bool := start.toList.isPrefixOf s.toList

/-- What follows `start` at the front of a text. -/
def stripStart (start s : String) : Option String :=
  (start.toList.isPrefixOf? s.toList).map String.ofList

theorem isPrefixOf?_append (l m : List Char) : l.isPrefixOf? (l ++ m) = some m := by
  induction l with
  | nil => cases m <;> rfl
  | cons c l ih => simp [List.isPrefixOf?]

@[simp] theorem stripStart_append (start s : String) : stripStart start (start ++ s) = some s := by
  rw [stripStart, String.toList_append, isPrefixOf?_append, Option.map_some, String.ofList_toList]

/-- What precedes `suffix` at the end of a text. -/
def stripEnd (suffix s : String) : Option String :=
  (suffix.toList.isSuffixOf? s.toList).map String.ofList

@[simp] theorem stripEnd_append (suffix s : String) : stripEnd suffix (s ++ suffix) = some s := by
  simp [stripEnd, List.isSuffixOf?]

/-- What stands before and after the first occurrence of a list in another. -/
def splitFirst (sep : List Char) : List Char → Option (List Char × List Char)
  | [] => (sep.isPrefixOf? []).map fun rest => ([], rest)
  | c :: l =>
    match sep.isPrefixOf? (c :: l) with
    | some rest => some ([], rest)
    | none => (splitFirst sep l).map fun parts => (c :: parts.1, parts.2)

/-- The texts before and after the first occurrence of a separator. -/
def splitOnce (sep s : String) : Option (String × String) :=
  (splitFirst sep.toList s.toList).map fun parts => (.ofList parts.1, .ofList parts.2)

theorem splitFirst_append {sep a : List Char} (ha : c ∉ a) (b : List Char) :
    splitFirst (c :: sep) (a ++ (c :: sep ++ b)) = some (a, b) := by
  induction a with
  | nil =>
    have hfst : (c :: sep).isPrefixOf? (c :: (sep ++ b)) = some b :=
      isPrefixOf?_append (c :: sep) b
    simp [splitFirst, hfst]
  | cons d a ih =>
    obtain ⟨hd, ha⟩ := not_or.1 (List.mem_cons.not.1 ha)
    have hfst : (c :: sep).isPrefixOf? (d :: (a ++ (c :: sep ++ b))) = none := by
      simp [List.isPrefixOf?, hd]
    simp only [List.cons_append, splitFirst] at ih ⊢
    rw [List.cons_append] at hfst
    simp [hfst, ih ha]

/-- A text is split at a separator whose first character it does not have. -/
theorem splitOnce_append {sep : String} (hsep : sep.toList.head? = some c)
    (ha : c ∉ a.toList) (b : String) : splitOnce sep (a ++ (sep ++ b)) = some (a, b) := by
  obtain ⟨_, htl⟩ := List.head?_eq_some_iff.1 hsep
  rw [splitOnce, String.toList_append, String.toList_append, htl, splitFirst_append ha,
    Option.map_some, String.ofList_toList, String.ofList_toList]

/-- What stands before and after the first occurrence of a character is determined. -/
theorem append_cons_inj {α : Type*} {c : α} {a a' b b' : List α} (ha : c ∉ a) (ha' : c ∉ a')
    (h : a ++ c :: b = a' ++ c :: b') : a = a' ∧ b = b' := by
  induction a generalizing a' with
  | nil =>
    cases a' with
    | nil => exact ⟨rfl, (List.cons.inj h).2⟩
    | cons => exact absurd (List.mem_cons.2 (.inl (List.cons.inj h).1)) ha'
  | cons d a ih =>
    cases a' with
    | nil => exact absurd (List.mem_cons.2 (.inl (List.cons.inj h).1.symm)) ha
    | cons =>
      obtain ⟨hd, hrs⟩ := List.cons.inj h
      obtain ⟨hfr, hbk⟩ := ih (fun hc => ha (List.mem_cons_of_mem _ hc))
        (fun hc => ha' (List.mem_cons_of_mem _ hc)) hrs
      exact ⟨by rw [hd, hfr], hbk⟩

theorem toList_qualified (a b : String) : (qualified a b).toList = a.toList ++ ':' :: b.toList := by
  simp [qualified]

theorem qualified_right_injective (a : String) : Function.Injective (qualified a) := by
  intro b b' h
  have hls := congrArg String.toList h
  simpa [toList_qualified, String.toList_inj] using hls

/-- Two texts can be told apart when the first one has no colon. -/
theorem qualified_inj {a' b b' : String} (ha : ':' ∉ a.toList) (ha' : ':' ∉ a'.toList) :
    qualified a b = qualified a' b' ↔ a = a' ∧ b = b' := by
  constructor
  · intro h
    have hls := congrArg String.toList h
    simp only [toList_qualified] at hls
    obtain ⟨hfr, hbk⟩ := append_cons_inj ha ha' hls
    exact ⟨String.toList_inj.1 hfr, String.toList_inj.1 hbk⟩
  · rintro ⟨rfl, rfl⟩
    rfl

theorem not_mem_of_all {p : Char → Bool} (h : s.toList.all p = true)
    (hc : p c = false) : c ∉ s.toList := by
  intro hmem
  cases (List.all_eq_true.1 h c hmem).symm.trans hc

/-- Lists of pieces without the separator are told apart when they are joined by it. -/
theorem intercalate_inj {α : Type*} [DecidableEq α] {sep : α} {l l' : List (List α)} (hl : l ≠ [])
    (hl' : l' ≠ []) (hsep : ∀ p ∈ l, sep ∉ p) (hsep' : ∀ p ∈ l', sep ∉ p)
    (h : [sep].intercalate l = [sep].intercalate l') : l = l' := by
  rw [← List.splitOn_intercalate sep hsep hl, h, List.splitOn_intercalate sep hsep' hl']

/-- An ASCII text has as many bytes as characters. -/
theorem utf8ByteSize_of_ascii (h : ∀ c ∈ s.toList, c.utf8Size = 1) :
    s.utf8ByteSize = s.toList.length := by
  have hlen : ∀ l : List Char, (∀ c ∈ l, c.utf8Size = 1) → String.utf8Len l = l.length := by
    intro l hl
    induction l with
    | nil => rfl
    | cons c l ih =>
      rw [String.utf8Len_cons, ih fun d hd => hl d (List.mem_cons_of_mem c hd),
        hl c List.mem_cons_self, List.length_cons]
  rw [← hlen s.toList h, ← String.utf8ByteSize_ofList, String.ofList_toList]

theorem opensWith_qualified (a b : String) : opensWith (a ++ ":") (qualified a b) = true := by
  simp [opensWith, qualified]

end AsteriusIdp.Text
