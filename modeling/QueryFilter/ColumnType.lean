/-!
# Types of columns

The scalar types that a basic attribute may have. A name that is not known is kept: values of such
a type pass unchanged and have no order.
-/

namespace QueryFilter

/-- The width of a signed integer type. -/
inductive IntWidth
  | byte
  | short
  | int
  | long
  deriving DecidableEq, Repr

namespace IntWidth

/-- The number of bits. -/
def bits : IntWidth → Nat
  | byte => 8
  | short => 16
  | int => 32
  | long => 64

/-- The name of the type. -/
def name : IntWidth → String
  | byte => "byte"
  | short => "short"
  | int => "int"
  | long => "long"

/-- Whether a number fits. -/
def holds (w : IntWidth) (n : Int) : Bool :=
  -Int.pow 2 (w.bits - 1) ≤ n && n < Int.pow 2 (w.bits - 1)

end IntWidth

/-- The type of a basic attribute. -/
inductive ColumnType
  | text
  | bool
  | integer (width : IntWidth)
  | float
  | double
  | uuid
  | date
  | datetime
  | instant
  | offsetDateTime
  | zonedDateTime
  | hijrahDate
  | enumeration (name : String) (constants : List String)
  | foreign (name : String)
  deriving DecidableEq, Repr

namespace ColumnType

/-- The declared names of the known types; some types have two. -/
def known : List (String × ColumnType) := [
  ("text", .text), ("string", .text), ("bool", .bool), ("boolean", .bool),
  ("byte", .integer .byte), ("short", .integer .short), ("int", .integer .int),
  ("integer", .integer .int), ("long", .integer .long), ("float", .float), ("double", .double),
  ("uuid", .uuid), ("date", .date), ("datetime", .datetime), ("instant", .instant),
  ("offset_datetime", .offsetDateTime), ("zoned_datetime", .zonedDateTime),
  ("hijrah_date", .hijrahDate)]

/-- The type with a declared name. -/
def ofName (name : String) : ColumnType := (known.lookup name).getD (.foreign name)

/-- The name of a type in messages and definitions. -/
def name : ColumnType → String
  | text => "text"
  | bool => "bool"
  | integer w => w.name
  | float => "float"
  | double => "double"
  | uuid => "uuid"
  | date => "date"
  | datetime => "datetime"
  | instant => "instant"
  | offsetDateTime => "offset_datetime"
  | zonedDateTime => "zoned_datetime"
  | hijrahDate => "hijrah_date"
  | enumeration name _ => name
  | foreign name => name

/-- Whether the values are numbers. -/
def isNumeric : ColumnType → Bool
  | integer _ | float | double => true
  | _ => false

/-- Whether the values have an order. Those of an enumeration are ordered by ordinal. -/
def isComparable : ColumnType → Bool
  | foreign _ => false
  | _ => true

end ColumnType

end QueryFilter
