import QueryFilter.Text.Blank
import QueryFilter.Text.Digits

/-!
# Dates of the Hijrah calendar

A year from 1300 to 1600, a month and a day. No table of month lengths is used, so every month has
a day 30. The text is exactly `yyyy-MM-dd`.
-/

namespace QueryFilter.Calendar

/-- The dates in use. -/
def HijrahDate.Valid (year month day : Nat) : Prop :=
  1300 ≤ year ∧ year ≤ 1600 ∧ 1 ≤ month ∧ month ≤ 12 ∧ 1 ≤ day ∧ day ≤ 30

instance HijrahDate.decidableValid (year month day : Nat) :
    Decidable (HijrahDate.Valid year month day) := by
  unfold HijrahDate.Valid
  infer_instance

/-- A date of the Hijrah calendar. -/
structure HijrahDate where
  year : Nat
  month : Nat
  day : Nat
  valid : HijrahDate.Valid year month day
  deriving DecidableEq, Repr

namespace HijrahDate

/-- The date with the given parts, if it is in use. -/
def of? (year month day : Nat) : Option HijrahDate :=
  if h : Valid year month day then some ⟨year, month, day, h⟩ else none

/-- The text of a date. -/
def text (d : HijrahDate) : List Char :=
  Text.lastDigits 4 d.year ++ '-' :: Text.lastDigits 2 d.month ++ '-' :: Text.lastDigits 2 d.day

/-- The date that a text names, blanks at its ends aside. -/
def read? (cs : List Char) : Option HijrahDate :=
  match Text.trim cs with
  | [y1, y2, y3, y4, '-', m1, m2, '-', d1, d2] =>
    if [y1, y2, y3, y4, m1, m2, d1, d2].all Char.isDigit then
      of? (Text.digitsValue [y1, y2, y3, y4]) (Text.digitsValue [m1, m2])
        (Text.digitsValue [d1, d2])
    else none
  | _ => none

/-- Whether a date is not after another one. -/
def le (a b : HijrahDate) : Bool :=
  a.year < b.year || (a.year == b.year &&
    (a.month < b.month || (a.month == b.month && a.day ≤ b.day)))

end HijrahDate

end QueryFilter.Calendar
