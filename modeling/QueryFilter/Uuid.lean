import QueryFilter.Text.Digits

/-!
# Universally unique identifiers

A 128-bit number, written with 32 hexadecimal digits. Four spellings are read: the digits alone,
in groups of 8, 4, 4, 4 and 12 with hyphens, and this form between braces or after `urn:uuid:`.
-/

namespace QueryFilter

/-- An identifier. -/
structure Uuid where
  bits : BitVec 128
  deriving DecidableEq, Repr

namespace Uuid

/-- The identifier with 32 hexadecimal digits. -/
def ofDigits? (cs : List Char) : Option Uuid := do
  let values ← cs.mapM Text.hexValue?
  if values.length = 32 then
    some ⟨BitVec.ofNat 128 (values.foldl (fun n d => 16 * n + d) 0)⟩
  else none

/-- The identifier in five groups with hyphens between them. -/
def ofGroups? (cs : List Char) : Option Uuid :=
  let hyphens := [8, 13, 18, 23]
  if cs.length = 36 ∧ hyphens.all (fun i => cs[i]? == some '-') then
    ofDigits? (cs.take 8 ++ (cs.drop 9).take 4 ++ (cs.drop 14).take 4 ++ (cs.drop 19).take 4 ++
      cs.drop 24)
  else none

/-- The identifier that a text names. -/
def read? (cs : List Char) : Option Uuid :=
  match cs.length with
  | 32 => ofDigits? cs
  | 36 => ofGroups? cs
  | 38 => if cs.head? = some '\x7b' ∧ cs.getLast? = some '\x7d' then ofGroups? (cs.drop 1).dropLast
          else none
  | 45 => if (cs.take 9).map Char.toLower = "urn:uuid:".toList then ofGroups? (cs.drop 9) else none
  | _ => none

/-- The text of an identifier, in lower case and with hyphens. -/
def text (u : Uuid) : List Char :=
  let digits := (List.range 32).map fun i => Text.hexDigit (u.bits.toNat / Nat.pow 16 (31 - i))
  digits.take 8 ++ '-' :: (digits.drop 8).take 4 ++ '-' :: (digits.drop 12).take 4 ++
    '-' :: (digits.drop 16).take 4 ++ '-' :: digits.drop 20

end Uuid

end QueryFilter
