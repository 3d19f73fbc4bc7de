import QueryFilter.Decimal.Basic

/-!
# Shortest decimal text of a binary number

Of all decimals that round to a given binary value, the ones with the fewest digits lie on the
coarsest power-of-ten grid that meets the value's rounding interval; of those the nearest to the
value is taken. `Layout` says how the digits are then written.
-/

namespace QueryFilter.Decimal

/-- Which of two grid points at the same distance is taken. -/
inductive Tie
  | toEven
  | up
  deriving DecidableEq, Repr

/-- The reals that round to a binary value: three numerators over one denominator, and whether
the ends belong to the interval. -/
structure Interval where
  low : Nat
  value : Nat
  high : Nat
  den : Nat
  closed : Bool

/-- The rounding interval of a magnitude. Below a power of two the gap is half as wide. -/
def Interval.of {f : Binary.Format} (x : Binary f) : Interval :=
  let unit := Nat.pow 2 x.scale
  let value := 4 * x.units
  let narrow := x.significand = Nat.pow 2 (f.precision - 1) ∧ x.scale ≠ 0
  { low := value - (if narrow then unit else 2 * unit)
    value
    high := value + 2 * unit
    den := 4 * Nat.pow 2 f.least
    closed := x.significand % 2 = 0 }

namespace Interval

/-- The interval in units of `10 ^ k`. -/
def inUnitsOf (i : Interval) (k : Int) : Interval :=
  if k < 0 then
    let p := Nat.pow 10 (-k).toNat
    { i with low := i.low * p, value := i.value * p, high := i.high * p }
  else { i with den := i.den * Nat.pow 10 k.toNat }

/-- Whether an integer lies in the interval. -/
def holds (i : Interval) (c : Nat) : Bool :=
  if i.closed then i.low ≤ c * i.den && c * i.den ≤ i.high
  else i.low < c * i.den && c * i.den < i.high

/-- The integer just below the value, or the value itself. -/
def floor (i : Interval) : Nat := i.value / i.den

/-- Of an integer below the value and the next one, the nearer to the value. -/
def nearer (i : Interval) (tie : Tie) (c : Nat) : Nat :=
  let below := i.value - c * i.den
  let above := (c + 1) * i.den - i.value
  if below < above then c
  else if above < below then c + 1
  else match tie with
    | .toEven => c + c % 2
    | .up => c + 1

/-- The integer of the interval that is nearest to the value, if it holds one. -/
def nearest? (i : Interval) (tie : Tie) : Option Nat :=
  let c := i.floor
  match i.holds c, i.holds (c + 1) with
  | true, true => some (i.nearer tie c)
  | true, false => some c
  | false, true => some (c + 1)
  | false, false => none

/-- Search the grids `10 ^ k`, `10 ^ (k - 1)`, … for one that meets the interval. -/
def coarsest (i : Interval) (tie : Tie) : (steps : Nat) → (k : Int) → Nat × Int
  | 0, k => ((i.inUnitsOf k).floor, k)
  | steps + 1, k =>
    match (i.inUnitsOf k).nearest? tie with
    | some c => (c, k)
    | none => i.coarsest tie steps (k - 1)

end Interval

/-- The digits and the power of ten of the shortest decimal that rounds to a magnitude. The search
starts above the value, whose decimal exponent is that of its highest bit times `log₁₀ 2`. -/
def shortest {f : Binary.Format} (tie : Tie) (x : Binary f) : Nat × Int :=
  let bits : Int := Binary.bitLength x.units - f.least
  (Interval.of x).coarsest tie 30 (bits * 30103 / 100000 + 2)

/-- How digits become text: between the two exponents positionally and with a fraction, otherwise
with an exponent, which may carry a plus. -/
structure Layout where
  leastPositional : Int
  greatestPositional : Int
  plus : Bool
  tie : Tie

/-- The text of `digits * 10 ^ k`, where `digits` is not zero. -/
def Layout.write (l : Layout) (digits : Nat) (k : Int) : List Char :=
  let ds := Nat.toDigits 10 digits
  let e := k + ds.length - 1
  if l.leastPositional ≤ e ∧ e ≤ l.greatestPositional then
    if 0 ≤ k then ds ++ List.replicate k.toNat '0' ++ ".0".toList
    else if 0 ≤ e then ds.take (e.toNat + 1) ++ '.' :: ds.drop (e.toNat + 1)
    else "0.".toList ++ List.replicate (-e - 1).toNat '0' ++ ds
  else
    let fraction := match ds.drop 1 with
      | [] => []
      | rest => '.' :: rest
    let sign := if e < 0 then ['-'] else if l.plus then ['+'] else []
    ds.take 1 ++ fraction ++ 'e' :: sign ++ Nat.toDigits 10 e.natAbs

/-- The shortest text of a binary number in a layout. -/
def Layout.text (l : Layout) {f : Binary.Format} (x : Binary f) : String :=
  let magnitude :=
    if x.significand = 0 then "0.0".toList
    else
      let (digits, k) := shortest l.tie x
      l.write digits k
  String.ofList (if x.negative then '-' :: magnitude else magnitude)

end QueryFilter.Decimal
