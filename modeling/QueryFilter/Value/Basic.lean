import QueryFilter.ColumnType
import QueryFilter.Uuid
import QueryFilter.Calendar.Hijrah
import QueryFilter.Calendar.Printer
import QueryFilter.Json.Printer
import QueryFilter.Text.LowerCase

/-!
# Typed values

An operand after its conversion to the type of a column, and its text.
-/

namespace QueryFilter

/-- A value of a column type. A zoned date-time may name its region, an enumeration constant has
its ordinal, and a value of an unknown type stays as it was. -/
inductive Value
  | null
  | bool (value : Bool)
  | integer (width : IntWidth) (value : Int)
  | float (value : Binary Binary.single)
  | double (value : Binary Binary.double)
  | text (value : String)
  | uuid (value : Uuid)
  | date (value : Calendar.Date)
  | datetime (value : Calendar.DateTime)
  | instant (utc : Calendar.DateTime)
  | offsetDateTime (value : Calendar.OffsetDateTime)
  | zoned (value : Calendar.OffsetDateTime) (zone : Option String)
  | hijrah (value : Calendar.HijrahDate)
  | enumeration (ordinal : Nat) (name : String)
  | raw (value : Json)
  deriving DecidableEq, Repr

namespace Value

/-- A binary number is positional from `10⁻⁴` to below `10¹⁶`; an exponent has no plus sign and a
tie between two digit strings goes up. -/
def floatLayout : Decimal.Layout := ⟨-4, 15, false, .up⟩

/-- The text of a value. -/
def toText : Value → String
  | null => "null"
  | bool true => "true"
  | bool false => "false"
  | integer _ n => toString n
  | float x => floatLayout.text x
  | double x => floatLayout.text x
  | text s => s
  | uuid u => String.ofList u.text
  | date d => String.ofList d.text
  | datetime t => String.ofList t.text
  | instant t => String.ofList t.instantText
  | offsetDateTime t => String.ofList t.text
  | zoned t none => String.ofList t.text
  | zoned t (some zone) => String.ofList t.text ++ "[" ++ zone ++ "]"
  | hijrah d => String.ofList d.text
  | enumeration _ name => name
  | raw (.scalar (.string s)) => s
  | raw v => v.text

/-- Whether the value is null. -/
def isNull : Value → Bool
  | null => true
  | _ => false

/-- A text in lower case; any other value as it is. -/
def lower : Value → Value
  | text s => text (Text.lower s)
  | v => v

end Value

end QueryFilter
