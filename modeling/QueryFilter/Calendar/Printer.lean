import QueryFilter.Calendar.DateTime
import QueryFilter.Text.Digits

/-!
# The text of dates and times

ISO 8601 texts: a year has at least four digits and a sign when it is outside 0..9999, a fraction
of a second has none, three, six or nine digits, and an offset is written with hours and minutes.
-/

namespace QueryFilter.Calendar

/-- The text of a year. -/
def yearText (year : Int) : List Char :=
  if 0 ≤ year ∧ year ≤ 9999 then Text.padded 4 year.natAbs
  else (if year < 0 then '-' else '+') :: Text.padded 4 year.natAbs

/-- The text of a day. -/
def Date.text (d : Date) : List Char :=
  yearText d.year ++ '-' :: Text.lastDigits 2 d.month ++ '-' :: Text.lastDigits 2 d.day

/-- The text of a fraction of a second in nanoseconds. -/
def fractionText (nano : Nat) : List Char :=
  if nano = 0 then []
  else if nano % Nat.pow 10 6 = 0 then '.' :: Text.lastDigits 3 (nano / Nat.pow 10 6)
  else if nano % Nat.pow 10 3 = 0 then '.' :: Text.lastDigits 6 (nano / Nat.pow 10 3)
  else '.' :: Text.lastDigits 9 nano

/-- The text of a time of day. -/
def Time.text (t : Time) : List Char :=
  Text.lastDigits 2 t.hour ++ ':' :: Text.lastDigits 2 t.minute ++
    ':' :: Text.lastDigits 2 t.second ++ fractionText t.nano

/-- The text of a local date-time. -/
def DateTime.text (t : DateTime) : List Char := t.date.text ++ 'T' :: t.time.text

/-- The text of an instant, given in UTC. -/
def DateTime.instantText (t : DateTime) : List Char := t.text ++ ['Z']

/-- The text of an offset in minutes. -/
def offsetText (offset : Int) : List Char :=
  (if offset < 0 then '-' else '+') :: Text.lastDigits 2 (offset.natAbs / 60) ++
    ':' :: Text.lastDigits 2 (offset.natAbs % 60)

/-- The text of an offset date-time. -/
def OffsetDateTime.text (t : OffsetDateTime) : List Char := t.stamp.text ++ offsetText t.offset

end QueryFilter.Calendar
