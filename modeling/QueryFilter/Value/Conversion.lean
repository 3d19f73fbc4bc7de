import QueryFilter.Value.Basic
import QueryFilter.Calendar.Reader

/-!
# Conversion of operands

How a raw operand becomes a value of a column type. Null converts to every type. Integers are
exact and have to fit their width, and a float with an integral value is an integer; numbers,
identifiers and dates may be given as text, numbers with blanks around them.
-/

namespace QueryFilter

namespace Value

/-! ### Numbers -/

/-- The integer that a text spells: an optional sign and digits. -/
def readInteger? (cs : List Char) : Option Int :=
  let (sign, digits) := Decimal.readSign cs
  if digits.isEmpty ∨ ¬digits.all Char.isDigit then none
  else
    let n : Int := Text.digitsValue digits
    some (if sign = some true then -n else n)

/-- The decimal number that a text spells: an optional sign, digits with an optional point among
or around them, and an optional exponent. -/
def readDecimal? (cs : List Char) : Option Decimal := do
  let (sign, cs) := Decimal.readSign cs
  let (whole, cs) := Decimal.readDigits cs
  let (fraction, cs) := match cs with
    | '.' :: cs => Decimal.readDigits cs
    | cs => ([], cs)
  if whole.isEmpty ∧ fraction.isEmpty then none
  else
    let (exponent, rest) ← Decimal.readExponent cs
    if rest.isEmpty then
      some (Decimal.Literal.value ⟨sign = some true, whole, fraction, exponent⟩)
    else none

/-- The integer that an operand stands for. -/
def integer? : Json → Option Int
  | .scalar (.number (.int n)) => some n
  | .scalar (.number (.float x)) => x.toInt?
  | .scalar (.string s) => readInteger? (Text.trim s.toList)
  | _ => none

/-- The 64-bit binary number that an operand stands for. -/
def double? : Json → Option (Binary Binary.double)
  | .scalar (.number (.int n)) => Binary.ofInt? _ n
  | .scalar (.number (.float x)) => some x
  | .scalar (.string s) => readDecimal? (Text.trim s.toList) >>= (·.toBinary? _)
  | _ => none

/-! ### Date-times with a zone -/

/-- The characters of a region identifier beside the slash. -/
def isZoneChar (c : Char) : Bool := c.isAlphanum || c == '_' || c == '+' || c == '-'

/-- Whether a text has the shape of a region identifier: parts between slashes, the first of which
starts with a letter. -/
def isZone (cs : List Char) : Bool :=
  cs.head?.any Char.isAlpha && go cs
where
  /-- No part is empty. -/
  go : List Char → Bool
    | [] => false
    | [c] => isZoneChar c
    | c :: '/' :: cs => isZoneChar c && go cs
    | c :: cs => isZoneChar c && go cs

/-- The date-time that a text names, with an optional region in brackets after it. -/
def readZoned? (cs : List Char) : Option Value :=
  let stamp := cs.takeWhile (· != '[')
  match cs.dropWhile (· != '[') with
  | [] => (Calendar.OffsetDateTime.read? stamp).map (zoned · none)
  | _ :: rest =>
    if rest.getLast? = some ']' ∧ isZone rest.dropLast then
      (Calendar.OffsetDateTime.read? stamp).map (zoned · (some (String.ofList rest.dropLast)))
    else none

/-! ### Conversion -/

/-- The text of an operand, if it is one. -/
def text? : Json → Option (List Char)
  | .scalar (.string s) => some s.toList
  | _ => none

/-- The constant that an operand stands for: by ordinal or by name. -/
def constant? (constants : List String) : Json → Option Value
  | .scalar (.number (.int n)) =>
    if 0 ≤ n then constants[n.toNat]?.map (enumeration n.toNat ·) else none
  | .scalar (.string s) =>
    let i := constants.idxOf s
    constants[i]?.map (enumeration i ·)
  | _ => none

/-- The text that a scalar operand stands for. -/
def textOf? : Json → Option String
  | .scalar (.string s) => some s
  | .scalar (.number n) => some n.text
  | .scalar (.bool b) => some (Json.Scalar.bool b).text
  | _ => none

/-- The truth value that an operand stands for. -/
def bool? : Json → Option Bool
  | .scalar (.bool b) => some b
  | .scalar (.string "true") => some true
  | .scalar (.string "false") => some false
  | _ => none

/-- An operand other than null as a value of a type. -/
def convert? (raw : Json) : ColumnType → Option Value
  | .text => (textOf? raw).map text
  | .bool => (bool? raw).map bool
  | .integer w => (integer? raw).bind fun n => if w.holds n then some (integer w n) else none
  | .float => (double? raw).bind fun x => (x.convert? Binary.single).map float
  | .double => (double? raw).map double
  | .uuid => (text? raw).bind fun cs => (Uuid.read? cs).map uuid
  | .date => (text? raw).bind fun cs => (Calendar.Date.read? cs).map date
  | .datetime => (text? raw).bind fun cs => (Calendar.DateTime.read? cs).map datetime
  | .instant => (text? raw).bind fun cs =>
    (Calendar.OffsetDateTime.read? cs).map fun t => instant t.utc
  | .offsetDateTime => (text? raw).bind fun cs =>
    (Calendar.OffsetDateTime.read? cs).map offsetDateTime
  | .zonedDateTime => (text? raw).bind readZoned?
  | .hijrahDate => (text? raw).bind fun cs => (Calendar.HijrahDate.read? cs).map hijrah
  | .enumeration _ constants => constant? constants raw
  | .foreign _ => some (Value.raw raw)

/-- An operand as a value of a type, if it converts. -/
def ofOperand? (raw : Json) (type : ColumnType) : Option Value :=
  if raw = .null then some null else convert? raw type

end Value

end QueryFilter
