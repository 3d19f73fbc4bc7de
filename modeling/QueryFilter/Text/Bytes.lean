/-!
# Texts as bytes

The UTF-8 bytes of a text, and how bytes are shown as a text. Bytes that are no UTF-8 text are shown
with a replacement character for each byte that starts no character, and for each start of a
character that is not complete.
-/

namespace QueryFilter.Text

/-- The UTF-8 bytes of a text. -/
def bytes (s : String) : List UInt8 := s.toUTF8.data.toList

/-- The ranges of the bytes that have to follow the first byte of a character; none when no
character starts with it. -/
def followers? (b : UInt8) : Option (List (UInt8 × UInt8)) :=
  let any := (0x80, 0xBF)
  if b < 0x80 then some []
  else if b < 0xC2 then none
  else if b < 0xE0 then some [any]
  else if b = 0xE0 then some [(0xA0, 0xBF), any]
  else if b = 0xED then some [(0x80, 0x9F), any]
  else if b < 0xF0 then some [any, any]
  else if b = 0xF0 then some [(0x90, 0xBF), any, any]
  else if b < 0xF4 then some [any, any, any]
  else if b = 0xF4 then some [(0x80, 0x8F), any, any]
  else none

/-- How many bytes in a row are in their ranges. -/
def countWithin : List (UInt8 × UInt8) → List UInt8 → Nat
  | (low, high) :: ranges, b :: bs =>
    if low ≤ b ∧ b ≤ high then countWithin ranges bs + 1 else 0
  | _, _ => 0

/-- Replace what is no UTF-8 text in bytes. The first bytes may belong to a character, or to the
start of one, that is shown already. -/
def repair : (shown : Nat) → List UInt8 → String
  | _, [] => ""
  | n + 1, _ :: bs => repair n bs
  | 0, b :: bs =>
    let ranges := followers? b
    let n := countWithin (ranges.getD []) bs
    let part :=
      if ranges.any (·.length == n) then String.fromUTF8? ⟨(b :: bs.take n).toArray⟩ else none
    part.getD "\uFFFD" ++ repair n bs

/-- Bytes as they are shown. -/
def ofBytes (bs : List UInt8) : String :=
  match String.fromUTF8? ⟨bs.toArray⟩ with
  | some s => s
  | none => repair 0 bs

end QueryFilter.Text
