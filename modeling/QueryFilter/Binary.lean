/-!
# Binary floating-point numbers

Finite numbers of a binary format as a sign and `significand * 2 ^ (scale - least)`, in exact
natural-number arithmetic. A value has one representation: the significand is full, or the scale
is the least one. Rounding takes a ratio to the nearest value, a tie to the even significand.
-/

namespace QueryFilter

/-- A binary format: `precision` significand bits, the least positive value `2 ^ -least`, and
`maxScale` doublings of it as the unit of the largest values. -/
structure Binary.Format where
  precision : Nat
  least : Nat
  maxScale : Nat
  deriving DecidableEq, Repr

namespace Binary

/-- The 64-bit format. -/
def double : Format := ⟨53, 1074, 2045⟩

/-- The 32-bit format. -/
def single : Format := ⟨24, 149, 253⟩

/-- The representations in use: no larger significand than fits, no smaller one than needed. -/
def Format.Canonical (f : Format) (significand scale : Nat) : Prop :=
  significand < Nat.pow 2 f.precision ∧ (scale = 0 ∨ Nat.pow 2 (f.precision - 1) ≤ significand) ∧
    scale ≤ f.maxScale

instance Format.decidableCanonical (f : Format) (m k : Nat) : Decidable (f.Canonical m k) := by
  unfold Format.Canonical
  infer_instance

end Binary

/-- A finite number of a binary format; zero keeps its sign. -/
structure Binary (f : Binary.Format) where
  negative : Bool
  significand : Nat
  scale : Nat
  canonical : f.Canonical significand scale
  deriving DecidableEq, Repr

namespace Binary

variable {f : Format}

/-- The numerator of the magnitude over `2 ^ least`. -/
def units (x : Binary f) : Nat := x.significand * Nat.pow 2 x.scale

/-- The quotient of two numbers rounded to the nearest integer, a half to the even neighbour. -/
def roundDiv (n d : Nat) : Nat :=
  let q := n / d
  let r := n % d
  if 2 * r < d then q else if d < 2 * r then q + 1 else q + q % 2

/-- The number of binary digits. -/
def bitLength (n : Nat) : Nat := if n = 0 then 0 else n.log2 + 1

/-- The value of the format nearest to `n / d`, with the given sign; none when it is too large. -/
def ofRatio? (f : Format) (negative : Bool) (n d : Nat) : Option (Binary f) :=
  let n := n * Nat.pow 2 f.least
  let k := bitLength (n / d) - f.precision
  let m := roundDiv n (d * Nat.pow 2 k)
  let full := Nat.pow 2 f.precision
  let (m, k) := if m = full then (m / 2, k + 1) else (m, k)
  if h : f.Canonical m k then some ⟨negative, m, k, h⟩ else none

/-- The value of the format nearest to an integer. -/
def ofInt? (f : Format) (i : Int) : Option (Binary f) := ofRatio? f (i < 0) i.natAbs 1

/-- The same number in another format, rounded to the nearest; none when it is too large. -/
def convert? (g : Format) (x : Binary f) : Option (Binary g) :=
  ofRatio? g x.negative x.units (Nat.pow 2 f.least)

/-- The integer of the same value, if there is one. -/
def toInt? (x : Binary f) : Option Int :=
  if x.units % Nat.pow 2 f.least = 0 then
    let n : Int := (x.units / Nat.pow 2 f.least : Nat)
    some (if x.negative then -n else n)
  else none

/-- Zero with a sign. -/
def zero (f : Format) (negative : Bool) : Binary f :=
  ⟨negative, 0, 0, Nat.two_pow_pos _, .inl rfl, Nat.zero_le _⟩

end Binary

end QueryFilter
