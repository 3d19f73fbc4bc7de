import QueryFilter.Calendar.Date

/-!
# Date-times

A time of day is exact to the nanosecond and may be a leap second, written as second 60. A local
date-time is a day with a time; an offset date-time adds its distance from UTC in minutes, and
exists only when its UTC date-time does.
-/

namespace QueryFilter.Calendar

/-- The times that exist. -/
def Time.Valid (hour minute second nano : Nat) : Prop :=
  hour < 24 ∧ minute < 60 ∧ second ≤ 60 ∧ nano < Nat.pow 10 9

instance Time.decidableValid (hour minute second nano : Nat) :
    Decidable (Time.Valid hour minute second nano) := by
  unfold Time.Valid
  infer_instance

/-- A time of day. -/
structure Time where
  hour : Nat
  minute : Nat
  second : Nat
  nano : Nat
  valid : Time.Valid hour minute second nano
  deriving DecidableEq, Repr

/-- The time with the given parts, if it exists. -/
def Time.of? (hour minute second nano : Nat) : Option Time :=
  if h : Time.Valid hour minute second nano then some ⟨hour, minute, second, nano, h⟩ else none

/-- The same second of another minute of the day. -/
def Time.atMinute (t : Time) (m : Nat) : Time :=
  ⟨m / 60 % 24, m % 60, t.second, t.nano,
    Nat.mod_lt _ (by decide), Nat.mod_lt _ (by decide), t.valid.2.2.1, t.valid.2.2.2⟩

/-- A date-time without an offset. -/
structure DateTime where
  date : Date
  time : Time
  deriving DecidableEq, Repr

/-- Go forward by less than a day of minutes, or back by a negative number; the seconds stay as
they are, a leap second too. -/
def DateTime.addMinutes? (t : DateTime) (minutes : Int) : Option DateTime :=
  let m := (t.time.hour * 60 + t.time.minute : Nat) + minutes
  if m < 0 then t.date.previous?.map fun d => ⟨d, t.time.atMinute (m + 1440).toNat⟩
  else if 1440 ≤ m then t.date.next?.map fun d => ⟨d, t.time.atMinute (m - 1440).toNat⟩
  else some ⟨t.date, t.time.atMinute m.toNat⟩

/-- A local date-time with its offset from UTC in minutes, and the date-time in UTC. -/
structure OffsetDateTime where
  stamp : DateTime
  offset : Int
  utc : DateTime
  offset_lt : offset.natAbs < 1440
  shifted : stamp.addMinutes? (-offset) = some utc
  deriving DecidableEq, Repr

/-- The date-time with an offset of less than a day, if it exists in UTC. -/
def OffsetDateTime.of? (stamp : DateTime) (offset : Int) : Option OffsetDateTime :=
  if h : offset.natAbs < 1440 then
    match e : stamp.addMinutes? (-offset) with
    | some utc => some ⟨stamp, offset, utc, h, e⟩
    | none => none
  else none

end QueryFilter.Calendar
