import QueryFilter.Binary
import QueryFilter.Text.Digits

/-!
# Decimal numbers

A decimal number is a sign, a digit string read as a natural number, and a power of ten. Its
nearest value in a binary format is found by exact division; the bounds on the exponent come from
the format, so a literal with an enormous exponent costs nothing.
-/

namespace QueryFilter

/-- The number `digits * 10 ^ exponent` with a sign. -/
structure Decimal where
  negative : Bool
  digits : Nat
  exponent : Int
  deriving DecidableEq, Repr

namespace Decimal

/-- The number of decimal digits; zero has none. -/
def digitCount (n : Nat) : Nat := if n = 0 then 0 else (Nat.toDigits 10 n).length

/-- The nearest value of a binary format, a tie to the even significand; none when the number is
too large. A number below `10 ^ -least` is nearer to zero than to any other value, and one from
`10 ^ (precision + maxScale)` on is too large. -/
def toBinary? (f : Binary.Format) (x : Decimal) : Option (Binary f) :=
  let top := digitCount x.digits + x.exponent
  if x.digits = 0 ∨ top < -f.least then some (Binary.zero f x.negative)
  else if top > f.precision + f.maxScale + 1 then none
  else if x.exponent < 0 then
    Binary.ofRatio? f x.negative x.digits (Nat.pow 10 (-x.exponent).toNat)
  else Binary.ofRatio? f x.negative (x.digits * Nat.pow 10 x.exponent.toNat) 1

/-- The text of a decimal number as it stands in a literal: digits before and after a point, and
an exponent. -/
structure Literal where
  negative : Bool
  whole : List Char
  fraction : List Char
  exponent : Int
  deriving DecidableEq, Repr

/-- The number that a literal stands for. -/
def Literal.value (l : Literal) : Decimal :=
  ⟨l.negative, Text.digitsValue (l.whole ++ l.fraction), l.exponent - l.fraction.length⟩

/-- A sign: `some true` for minus, `some false` for plus. -/
def readSign : List Char → Option Bool × List Char
  | '-' :: cs => (some true, cs)
  | '+' :: cs => (some false, cs)
  | cs => (none, cs)

/-- The longest run of digits at the start of a text. -/
def readDigits (cs : List Char) : List Char × List Char :=
  (cs.takeWhile Char.isDigit, cs.dropWhile Char.isDigit)

/-- An exponent part, which may be missing; a mark without digits is refused. -/
def readExponent : List Char → Option (Int × List Char)
  | [] => some (0, [])
  | c :: cs =>
    if c = 'e' ∨ c = 'E' then
      let (sign, cs) := readSign cs
      let (digits, rest) := readDigits cs
      if digits.isEmpty then none
      else
        let n : Int := Text.digitsValue digits
        some (if sign = some true then -n else n, rest)
    else some (0, c :: cs)

end Decimal

end QueryFilter
