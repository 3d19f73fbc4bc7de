import QueryFilter.Json.Basic
import QueryFilter.Decimal.Shortest

/-!
# JSON text

The compact text of a value, without spaces, and the indented one. A string escapes the quote, the
backslash and the characters below U+0020; nothing else is escaped.
-/

namespace QueryFilter.Json

/-- A float is positional from `10⁻⁵` to below `10¹⁶`; an exponent carries its sign and a tie
between two digit strings goes to the even one. -/
def floatLayout : Decimal.Layout := ⟨-5, 15, true, .toEven⟩

/-- The text of a number. -/
def Number.text : Number → String
  | .int n => toString n
  | .float x => floatLayout.text x

/-- The escape of a character by its code in four hexadecimal digits. -/
def unicodeEscape (c : Char) : List Char :=
  let n := c.toNat
  ['\\', 'u', Text.hexDigit (n / 4096), Text.hexDigit (n / 256), Text.hexDigit (n / 16),
    Text.hexDigit n]

/-- A character as it stands between quotes. -/
def escapeChar (c : Char) : List Char :=
  if c = '"' then ['\\', '"']
  else if c = '\\' then ['\\', '\\']
  else if c = '\n' then ['\\', 'n']
  else if c = '\r' then ['\\', 'r']
  else if c = '\t' then ['\\', 't']
  else if c = '\x08' then ['\\', 'b']
  else if c = '\x0c' then ['\\', 'f']
  else if c.toNat < 0x20 then unicodeEscape c
  else [c]

/-- A string between quotes. -/
def quote (s : String) : String := String.ofList ('"' :: s.toList.flatMap escapeChar ++ ['"'])

/-- The text of a scalar. -/
def Scalar.text : Scalar → String
  | .null => "null"
  | .bool true => "true"
  | .bool false => "false"
  | .number n => n.text
  | .string s => quote s

mutual

/-- The compact text of a value. -/
def text : Json → String
  | .scalar s => s.text
  | .array xs => "[" ++ String.intercalate "," (elementTexts xs) ++ "]"
  | .object ms => "\x7b" ++ String.intercalate "," (memberTexts ms) ++ "\x7d"

/-- The compact texts of the elements of an array. -/
def elementTexts : List Json → List String
  | [] => []
  | x :: xs => x.text :: elementTexts xs

/-- The compact texts of the members of an object. -/
def memberTexts : List (String × Json) → List String
  | [] => []
  | (k, x) :: ms => (quote k ++ ":" ++ x.text) :: memberTexts ms

end

/-- The start of a line at a nesting depth, two spaces a level. -/
def newline (depth : Nat) : String := String.ofList ('\n' :: List.replicate (2 * depth) ' ')

/-- Items on lines of their own between brackets; no item leaves the brackets together. -/
def block (opening closing : String) (depth : Nat) (items : List String) : String :=
  if items.isEmpty then opening ++ closing
  else
    let separator := "," ++ newline (depth + 1)
    opening ++ newline (depth + 1) ++ String.intercalate separator items ++ newline depth ++ closing

mutual

/-- The indented text of a value that stands at a nesting depth. -/
def prettyAt (depth : Nat) : Json → String
  | .scalar s => s.text
  | .array xs => block "[" "]" depth (prettyElements (depth + 1) xs)
  | .object ms => block "\x7b" "\x7d" depth (prettyMembers (depth + 1) ms)

/-- The indented texts of the elements of an array. -/
def prettyElements (depth : Nat) : List Json → List String
  | [] => []
  | x :: xs => x.prettyAt depth :: prettyElements depth xs

/-- The indented texts of the members of an object. -/
def prettyMembers (depth : Nat) : List (String × Json) → List String
  | [] => []
  | (k, x) :: ms => (quote k ++ ": " ++ x.prettyAt depth) :: prettyMembers depth ms

end

/-- The indented text of a value. -/
def pretty (v : Json) : String := v.prettyAt 0

end QueryFilter.Json
