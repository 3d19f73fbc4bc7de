import QueryFilter.Calendar.DateTime
import QueryFilter.Text.Blank
import QueryFilter.Text.Digits

/-!
# Reading dates and times

Two grammars. The strict one has fixed widths and is used for complete offset date-times. The
loose one allows blanks before a number, one or two digits for each part and any number of digits
in a year with a sign. A whole text has to be used up.
-/

namespace QueryFilter.Calendar

/-- A reader takes a part of a text from its start. -/
abbrev Reader (α : Type) := StateT (List Char) Option α

namespace Reader

/-- Refuse the text. -/
def fail {α : Type} : Reader α := fun _ => none

/-- Accept an optional result. -/
def ofOption {α : Type} : Option α → Reader α
  | some a => pure a
  | none => fail

/-- Read one given character. -/
def char (c : Char) : Reader Unit := fun cs =>
  match cs with
  | d :: rest => if d = c then some ((), rest) else none
  | [] => none

/-- Read one of some characters. -/
def oneOf (accepted : List Char) : Reader Char := fun cs =>
  match cs with
  | d :: rest => if d ∈ accepted then some (d, rest) else none
  | [] => none

/-- Drop the characters at the start that satisfy a test. -/
def skip (p : Char → Bool) : Reader Unit := fun cs => some ((), cs.dropWhile p)

/-- Read a number with at least `least` digits, of which at most `most` are taken. -/
def number (least : Nat) (most : Option Nat) : Reader Nat := fun cs =>
  let run := cs.takeWhile Char.isDigit
  let digits := match most with
    | some most => run.take most
    | none => run
  if digits.length < least then none
  else some (Text.digitsValue digits, cs.drop digits.length)

/-- Read a whole text. -/
def run? {α : Type} (r : Reader α) (cs : List Char) : Option α :=
  match r cs with
  | some (a, []) => some a
  | _ => none

/-! ### The loose grammar -/

/-- One or two digits after blanks. -/
def loosePart : Reader Nat := do
  skip Text.isBlank
  number 1 (some 2)

/-- Up to four digits, or a sign and any number of digits, after blanks. -/
def looseYear : Reader Int := do
  skip Text.isBlank
  match (← get) with
  | '-' :: cs =>
    set cs
    return -(← number 1 none)
  | '+' :: cs =>
    set cs
    return (← number 1 none)
  | _ => return (← number 1 (some 4))

/-- Year, month and day between hyphens. -/
def looseDate : Reader Date := do
  let year ← looseYear
  char '-'
  let month ← loosePart
  char '-'
  let day ← loosePart
  ofOption (Date.of? year month day)

/-- A fraction of a second, which may be missing; digits after the ninth are dropped. -/
def fraction : Reader Nat := do
  match (← get) with
  | '.' :: cs =>
    set cs
    let digits := cs.takeWhile Char.isDigit
    let _ ← number 1 none
    let kept := digits.take 9
    return Text.digitsValue kept * Nat.pow 10 (9 - kept.length)
  | _ => return 0

/-- A day, `T`, hour and minute. -/
def looseMinute : Reader (Date × Nat × Nat) := do
  let date ← looseDate
  char 'T'
  let hour ← loosePart
  char ':'
  let minute ← loosePart
  return (date, hour, minute)

/-- A local date-time with seconds. -/
def looseDateTime : Reader DateTime := do
  let (date, hour, minute) ← looseMinute
  char ':'
  let second ← loosePart
  let nano ← fraction
  let time ← ofOption (Time.of? hour minute second nano)
  return ⟨date, time⟩

/-- A local date-time without seconds. -/
def looseDateMinute : Reader DateTime := do
  let (date, hour, minute) ← looseMinute
  let time ← ofOption (Time.of? hour minute 0 0)
  return ⟨date, time⟩

/-! ### Offsets -/

/-- The signs of an offset; the minus sign U+2212 counts as one. -/
def sign : Reader Bool := do
  let c ← oneOf ['+', '-', '\u2212']
  return c != '+'

/-- A signed offset of hours and minutes in two digits each, in minutes. -/
def offset (between : Reader Unit) : Reader Int := do
  let negative ← sign
  let hours ← number 2 (some 2)
  between
  let minutes ← number 2 (some 2)
  if minutes < 60 then
    let total : Int := (hours * 60 + minutes : Nat)
    return if negative then -total else total
  else fail

/-- An offset after blanks, with any mix of colons and blanks between hours and minutes. -/
def looseOffset : Reader Int := do
  skip Text.isBlank
  offset (skip fun c => c == ':' || Text.isBlank c)

/-- An offset with one colon, or `Z`. -/
def strictOffset : Reader Int := do
  match (← get) with
  | 'Z' :: cs | 'z' :: cs =>
    set cs
    return 0
  | _ => offset (char ':')

/-! ### Offset date-times -/

/-- The strict grammar, with seconds. -/
def strictOffsetDateTime : Reader OffsetDateTime := do
  let year ← number 4 (some 4)
  char '-'
  let month ← number 2 (some 2)
  char '-'
  let day ← number 2 (some 2)
  let date ← ofOption (Date.of? year month day)
  let _ ← oneOf ['T', 't', ' ']
  let hour ← number 2 (some 2)
  char ':'
  let minute ← number 2 (some 2)
  char ':'
  let second ← number 2 (some 2)
  let nano ← fraction
  let time ← ofOption (Time.of? hour minute second nano)
  let offset ← strictOffset
  ofOption (OffsetDateTime.of? ⟨date, time⟩ offset)

/-- The loose grammar, without seconds. -/
def looseOffsetDateTime : Reader OffsetDateTime := do
  let stamp ← looseDateMinute
  let offset ← looseOffset
  ofOption (OffsetDateTime.of? stamp offset)

end Reader

/-- A last `Z` written as an offset. -/
def expandZulu (cs : List Char) : List Char :=
  match cs.getLast? with
  | some 'Z' | some 'z' => cs.dropLast ++ "+00:00".toList
  | _ => cs

/-- The day that a text names. -/
def Date.read? (cs : List Char) : Option Date := Reader.looseDate.run? cs

/-- The local date-time that a text names; its seconds may be missing. -/
def DateTime.read? (cs : List Char) : Option DateTime :=
  (Reader.looseDateTime.run? cs).or (Reader.looseDateMinute.run? cs)

/-- The offset date-time that a text names; its seconds may be missing. -/
def OffsetDateTime.read? (cs : List Char) : Option OffsetDateTime :=
  (Reader.strictOffsetDateTime.run? cs).or (Reader.looseOffsetDateTime.run? (expandZulu cs))

end QueryFilter.Calendar
