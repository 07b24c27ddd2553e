import AsteriusIdp.Lib.Framing

/-!
# UUIDs

A UUID is 32 hexadecimal digits.  It is read from four spellings, in either case, and written in
one: lower-case digits in five groups.
-/

namespace AsteriusIdp

/-- Thirty-two hexadecimal digits. -/
structure Uuid where
  digits : List (Fin 16)
  length_digits : digits.length = 32
  deriving DecidableEq

namespace Uuid

/-- The value of a hexadecimal digit, in either case. -/
def hexValue (c : Char) : Option (Fin 16) :=
  if '0' ≤ c ∧ c ≤ '9' then some (Fin.ofNat 16 (c.toNat - 48))
  else if 'a' ≤ c ∧ c ≤ 'f' then some (Fin.ofNat 16 (c.toNat - 87))
  else if 'A' ≤ c ∧ c ≤ 'F' then some (Fin.ofNat 16 (c.toNat - 55))
  else none

/-- Without hyphens. -/
def parseSimple (cs : List Char) : Option Uuid :=
  match cs.mapM hexValue with
  | none => none
  | some digits => if h : digits.length = 32 then some ⟨digits, h⟩ else none

/-- Five groups, of eight, four, four, four and twelve digits. -/
def parseHyphenated (cs : List Char) : Option Uuid :=
  if cs.length = 36 ∧ ∀ i ∈ [8, 13, 18, 23], cs[i]? = some '-' then
    parseSimple (cs.take 8 ++ (cs.drop 9).take 4 ++ (cs.drop 14).take 4 ++ (cs.drop 19).take 4 ++
      cs.drop 24)
  else none

/-- Bare digits, groups, groups in braces, or a URN. -/
def parse (s : String) : Option Uuid :=
  let cs := s.toList
  if cs.length = 32 then parseSimple cs
  else if cs.length = 36 then parseHyphenated cs
  else if cs.length = 38 ∧ cs.head? = some '{' ∧ cs.getLast? = some '}' then
    parseHyphenated ((cs.drop 1).take 36)
  else if cs.length = 45 ∧ "urn:uuid:".toList <+: cs then parseHyphenated (cs.drop 9)
  else none

/-- The one spelling it is written in. -/
def text (u : Uuid) : String :=
  let cs := u.digits.map fun d => Framing.hexDigit d
  String.ofList (cs.take 8 ++ '-' :: (cs.drop 8).take 4 ++ '-' :: (cs.drop 12).take 4 ++
    '-' :: (cs.drop 16).take 4 ++ '-' :: cs.drop 20)

example : (parse "67E55044-10B1-426F-9247-BB680E5FE0C8").map text =
    some "67e55044-10b1-426f-9247-bb680e5fe0c8" := by decide +kernel

end Uuid

end AsteriusIdp
