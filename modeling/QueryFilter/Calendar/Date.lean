/-!
# Dates

Days of the proleptic Gregorian calendar with years from -262143 to 262142, so that year zero is
the year before year one.
-/

namespace QueryFilter.Calendar

/-- Whether a year has a 29th of February. -/
def isLeapYear (year : Int) : Bool :=
  year % 4 == 0 && (year % 100 != 0 || year % 400 == 0)

/-- The number of days of a month. -/
def daysInMonth (year : Int) : (month : Nat) → Nat
  | 2 => if isLeapYear year then 29 else 28
  | 4 | 6 | 9 | 11 => 30
  | _ => 31

/-- The days that exist. -/
def Date.Valid (year : Int) (month day : Nat) : Prop :=
  -262143 ≤ year ∧ year ≤ 262142 ∧ 1 ≤ month ∧ month ≤ 12 ∧ 1 ≤ day ∧ day ≤ daysInMonth year month

instance Date.decidableValid (year : Int) (month day : Nat) :
    Decidable (Date.Valid year month day) := by
  unfold Date.Valid
  infer_instance

/-- A day. -/
structure Date where
  year : Int
  month : Nat
  day : Nat
  valid : Date.Valid year month day
  deriving DecidableEq, Repr

namespace Date

/-- The day with a year, a month and a number, if it exists. -/
def of? (year : Int) (month day : Nat) : Option Date :=
  if h : Valid year month day then some ⟨year, month, day, h⟩ else none

/-- The day after; the last one has none. -/
def next? (d : Date) : Option Date :=
  if d.day < daysInMonth d.year d.month then of? d.year d.month (d.day + 1)
  else if d.month < 12 then of? d.year (d.month + 1) 1
  else of? (d.year + 1) 1 1

/-- The day before; the first one has none. -/
def previous? (d : Date) : Option Date :=
  if 1 < d.day then of? d.year d.month (d.day - 1)
  else if 1 < d.month then of? d.year (d.month - 1) (daysInMonth d.year (d.month - 1))
  else of? (d.year - 1) 12 31

end Date

end QueryFilter.Calendar
